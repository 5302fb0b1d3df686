import Briefing.Proofs.Encoding
import Briefing.Task.Escape
import Mathlib.Tactic.IntervalCases
import Mathlib.Tactic.Ring

/-!
# What an escaped text stands for

The pieces of an escaped text are said here character by character (`Escaped`), and the text that
pieces stand for run by run (`RunsText`): characters stand for themselves, and bytes side by side
are decoded on their own. Decoding escapes gives that text (`decodeEscapes_eq_iff`), although it
encodes the characters and decodes all bytes at once: no character starts with a byte that
continues one, so that bytes before a character are decoded as if nothing followed
(`decode_append_of_head`).
-/

namespace Briefing

namespace Text

/-! ## Digits -/

/-- The value of a digit, in either case. -/
def IsDigit (base : Nat) (c : Char) (d : Nat) : Prop :=
  d < base ∧ ("0123456789abcdef".toList[d]? = some c ∨ "0123456789ABCDEF".toList[d]? = some c)

/-- The number that digits write, the first of them with the greatest weight. -/
inductive Writes (base : Nat) : List Char → Nat → Prop
  | nil : Writes base [] 0
  | cons {c : Char} {s : List Char} {d n : Nat} (hd : IsDigit base c d) (h : Writes base s n) :
      Writes base (c :: s) (d * base ^ s.length + n)

theorem digitValue?_eq_some_iff {base : Nat} {c : Char} {d : Nat} :
    digitValue? base c = some d ↔ IsDigit base c d := by
  unfold digitValue? IsDigit
  constructor
  · intro h
    rw [Option.filter_eq_some_iff] at h
    obtain ⟨h, hd⟩ := h
    refine ⟨of_decide_eq_true hd, ?_⟩
    have hc := Char.ofNat_toNat c
    generalize c.toNat = n at h hc
    subst hc
    split_ifs at h with h₁ h₂ h₃
    · obtain ⟨hl, hu⟩ := h₁
      obtain rfl := Option.some.inj h
      left
      interval_cases n <;> rfl
    · obtain ⟨hl, hu⟩ := h₂
      obtain rfl := Option.some.inj h
      left
      interval_cases n <;> rfl
    · obtain ⟨hl, hu⟩ := h₃
      obtain rfl := Option.some.inj h
      right
      interval_cases n <;> rfl
  · rintro ⟨hd, h⟩
    have hlt : d < 16 := by
      rcases h with h | h <;> exact (List.getElem?_eq_some_iff.mp h).1
    interval_cases d <;> simp at h <;> rcases h with rfl | rfl <;> simp [hd]

theorem readDigits?_eq_some_iff {base acc n : Nat} {s : List Char} :
    readDigits? base acc s = some n ↔ ∃ m, Writes base s m ∧ n = acc * base ^ s.length + m := by
  induction s generalizing acc with
  | nil =>
    rw [readDigits?]
    constructor
    · intro h
      exact ⟨0, .nil, by simp [Option.some.inj h]⟩
    · rintro ⟨m, h, rfl⟩
      cases h
      simp
  | cons c s ih =>
    rw [readDigits?, Option.bind_eq_some_iff]
    constructor
    · rintro ⟨d, hd, h⟩
      obtain ⟨m, hm, rfl⟩ := ih.mp h
      exact ⟨_, .cons (digitValue?_eq_some_iff.mp hd) hm, by rw [List.length_cons]; ring⟩
    · rintro ⟨m, h, rfl⟩
      cases h with
      | cons hd h =>
        exact ⟨_, digitValue?_eq_some_iff.mpr hd, ih.mpr ⟨_, h, by rw [List.length_cons]; ring⟩⟩

theorem readDigits?_zero_iff {base n : Nat} {s : List Char} :
    readDigits? base 0 s = some n ↔ Writes base s n := by
  simp [readDigits?_eq_some_iff]

theorem Writes.unique {base n n' : Nat} {s : List Char} (h : Writes base s n)
    (h' : Writes base s n') : n = n' :=
  Option.some.inj ((readDigits?_zero_iff.mpr h).symm.trans (readDigits?_zero_iff.mpr h'))

theorem Writes.lt {base n : Nat} {s : List Char} (h : Writes base s n) : n < base ^ s.length := by
  induction h with
  | nil => simp
  | @cons _ s d n hd _ ih =>
    rw [List.length_cons, Nat.pow_succ']
    calc d * base ^ s.length + n < d * base ^ s.length + base ^ s.length := by omega
      _ = (d + 1) * base ^ s.length := by ring
      _ ≤ base * base ^ s.length := Nat.mul_le_mul_right _ hd.1

/-! ## Bytes before a character -/

theorem following_range (lead : UInt8) :
    (following lead).1 = 0
      ∨ 0x80 ≤ (following lead).2.1 ∧ (following lead).2.2 ≤ 0xbf := by
  unfold following
  split_ifs <;> simp

theorem takeWhile_append_of_head {α : Type} {p : α → Bool} {a b : List α}
    (hb : ∀ x ∈ b.head?, p x = false) : (a ++ b).takeWhile p = a.takeWhile p := by
  have hnone : b.takeWhile p = [] := by
    rcases b with _ | ⟨x, b⟩
    · rfl
    · simp [hb x rfl]
  rw [List.takeWhile_append, hnone, List.append_nil]
  split_ifs with h
  · exact ((List.takeWhile_prefix p).eq_of_length h).symm
  · rfl

theorem takeWhile_zipIdx_append {α : Type} {p : α × Nat → Bool} {a b : List α} {n : Nat}
    (hb : ∀ x ∈ b.head?, a.length < n → p (x, a.length) = false) :
    ((a ++ b).take n).zipIdx.takeWhile p = (a.take n).zipIdx.takeWhile p := by
  rw [List.take_append, List.zipIdx_append]
  refine takeWhile_append_of_head ?_
  rintro ⟨x, i⟩ hx
  rcases b with _ | ⟨y, b⟩
  · simp at hx
  rcases hk : n - a.length with _ | k
  · simp [hk] at hx
  have hlt : a.length < n := by omega
  obtain ⟨rfl, rfl⟩ : y = x ∧ a.length = i := by simpa [hk, hlt.le] using hx
  exact hb y rfl hlt

/-- A character that is cut short takes nothing of what follows, unless that continues it. -/
theorem decodeOne_append {lead : UInt8} {a b : List UInt8}
    (hb : ∀ x ∈ b.head?, isContinuation x = false) :
    decodeOne lead (a ++ b) = decodeOne lead a ∧ (decodeOne lead a).2 ≤ a.length := by
  unfold decodeOne
  split_ifs with hlead
  · simp
  · have hrange := following_range lead
    generalize following lead = f at hrange
    obtain ⟨n, low, high⟩ := f
    dsimp only at hrange ⊢
    rw [takeWhile_zipIdx_append]
    · generalize hg : List.takeWhile _ (a.take n).zipIdx = own
      have hlen : own.length ≤ (a.take n).length := by
        rw [← hg]
        exact (List.takeWhile_prefix _).length_le.trans_eq List.length_zipIdx
      rw [List.length_take] at hlen
      refine ⟨rfl, ?_⟩
      split_ifs <;> dsimp only <;> omega
    · intro x hx hlt
      have hy := hb x hx
      rcases hrange with rfl | ⟨hlow, hhigh⟩
      · omega
      split_ifs
      · by_contra hin
        simp only [Bool.and_eq_true, decide_eq_true_eq, Bool.not_eq_false] at hin
        simp [isContinuation, UInt8.le_trans hlow hin.1, UInt8.le_trans hin.2 hhigh] at hy
      · exact hy

/-- Bytes are decoded on their own before a byte that continues no character. -/
theorem decode_append_of_head {a b : List UInt8}
    (hb : ∀ x ∈ b.head?, isContinuation x = false) : decode (a ++ b) = decode a ++ decode b := by
  fun_induction decode a with
  | case1 => rfl
  | case2 lead rest c n hone ih =>
    obtain ⟨hsame, hle⟩ := @decodeOne_append lead rest b hb
    rw [hone] at hsame hle
    rw [List.cons_append, decode, hsame]
    dsimp only
    rw [List.drop_append_of_le_length hle, ih, List.cons_append]

theorem isContinuation_ofNat_of_lt {n : Nat} (h : n < 0x80 ∨ 0xc0 ≤ n) (hn : n < 256) :
    isContinuation (UInt8.ofNat n) = false := by
  rw [isContinuation, Bool.and_eq_false_iff, decide_eq_false_iff_not, decide_eq_false_iff_not,
    UInt8.le_iff_toNat_le, UInt8.le_iff_toNat_le, toNat_ofNat hn]
  simp only [UInt8.reduceToNat]
  omega

/-- No character starts with a byte that continues one. -/
theorem encodeChar_eq_cons (c : Char) :
    ∃ b bytes, encodeChar c = b :: bytes ∧ isContinuation b = false := by
  unfold encodeChar String.utf8EncodeChar
  dsimp only
  have hc : c.val.toNat < 0x110000 := by
    have := c.valid
    simp only [UInt32.isValidChar, Nat.isValidChar] at this
    omega
  generalize c.val.toNat = n at hc
  split_ifs
  all_goals exact ⟨_, _, rfl, isContinuation_ofNat_of_lt (by omega) (by omega)⟩

end Text

namespace Task

/-- The text that pieces stand for: a character stands for itself, and bytes side by side are
decoded on their own. -/
inductive RunsText : List Piece → List Char → Prop
  | nil : RunsText [] []
  | char {c : Char} {pieces : List Piece} {t : List Char} (h : RunsText pieces t) :
      RunsText (.char c :: pieces) (c :: t)
  | bytes {run : List UInt8} {pieces : List Piece} {t : List Char} (hne : run ≠ [])
      (hstop : ∀ b, pieces.head? ≠ some (.byte b)) (h : RunsText pieces t) :
      RunsText (run.map .byte ++ pieces) (Text.decode run ++ t)

theorem RunsText.eq_decode {pieces : List Piece} {t : List Char} (h : RunsText pieces t) :
    t = Text.decode (pieces.flatMap Piece.bytes) := by
  induction h with
  | nil => rw [List.flatMap_nil, Text.decode]
  | char _ ih => rw [List.flatMap_cons, Piece.bytes, Text.decode_encodeChar_append, ← ih]
  | @bytes run pieces t _ hstop _ ih =>
    have hrun : (run.map Piece.byte).flatMap Piece.bytes = run := by
      rw [List.flatMap_map]
      exact List.flatMap_singleton' run
    have hhead : ∀ x ∈ (pieces.flatMap Piece.bytes).head?, Text.isContinuation x = false := by
      intro x hx
      rcases pieces with _ | ⟨c | b, pieces⟩
      · simp at hx
      · obtain ⟨b, bytes, hc, hb⟩ := Text.encodeChar_eq_cons c
        obtain rfl : b = x := by simpa [Piece.bytes, hc] using hx
        exact hb
      · exact absurd rfl (hstop b)
    rw [List.flatMap_append, hrun, Text.decode_append_of_head hhead, ← ih]

theorem exists_runsText (pieces : List Piece) : ∃ t, RunsText pieces t := by
  induction pieces with
  | nil => exact ⟨[], .nil⟩
  | cons piece pieces ih =>
    obtain ⟨t, h⟩ := ih
    rcases piece with c | b
    · exact ⟨_, .char h⟩
    · -- a byte joins the run that it stands before
      cases h with
      | nil => exact ⟨_, @RunsText.bytes [b] [] _ (List.cons_ne_nil _ _) (by simp) .nil⟩
      | char h =>
        exact ⟨_, @RunsText.bytes [b] _ _ (List.cons_ne_nil _ _) (by simp) (.char h)⟩
      | @bytes run _ _ _ hstop h =>
        exact ⟨_, @RunsText.bytes (b :: run) _ _ (List.cons_ne_nil _ _) hstop h⟩

/-- Decoding all bytes at once gives the text of the pieces. -/
theorem runsText_iff {pieces : List Piece} {t : List Char} :
    RunsText pieces t ↔ Text.decode (pieces.flatMap Piece.bytes) = t := by
  refine ⟨fun h => h.eq_decode.symm, ?_⟩
  rintro rfl
  obtain ⟨t, h⟩ := exists_runsText pieces
  rwa [← h.eq_decode]

/-! ## Pieces -/

/-- The one-letter escapes with their characters. -/
def letters : List (Char × Char) :=
  [('n', '\n'), ('t', '\t'), ('r', '\r'), ('\\', '\\'), ('"', '"'), ('\'', '\'')]

/-- The text starts with `n` digits in base sixteen that write `value`, and goes on with `rest`. -/
def StartsHex (n : Nat) (s : List Char) (value : Nat) (rest : List Char) : Prop :=
  ∃ digits, s = digits ++ rest ∧ digits.length = n ∧ Text.Writes 16 digits value

/-- The text starts with one to three octal digits that write the byte `b`, and goes on with
`rest`. -/
def StartsOctal (s : List Char) (b : UInt8) (rest : List Char) : Prop :=
  ∃ digits, s = digits ++ rest ∧ digits ≠ [] ∧ digits.length ≤ 3 ∧ Text.Writes 8 digits b.toNat

/-- The pieces of an escaped text, from left to right. -/
inductive Escaped : List Char → List Piece → Prop
  | nil : Escaped [] []
  /-- A backslash that ends the text is kept. -/
  | final : Escaped ['\\'] [.char '\\']
  | plain {c : Char} {s : List Char} {pieces : List Piece} (hc : c ≠ '\\')
      (h : Escaped s pieces) : Escaped (c :: s) (.char c :: pieces)
  | letter {e c : Char} {s : List Char} {pieces : List Piece} (he : (e, c) ∈ letters)
      (h : Escaped s pieces) : Escaped ('\\' :: e :: s) (.char c :: pieces)
  | codePoint {c : Char} {s rest : List Char} {pieces : List Piece}
      (hs : StartsHex 4 s c.toNat rest) (h : Escaped rest pieces) :
      Escaped ('\\' :: 'u' :: s) (.char c :: pieces)
  /-- Without the digits of a character the escape is kept. -/
  | noCodePoint {s : List Char} {pieces : List Piece}
      (hs : ∀ (c : Char) rest, ¬StartsHex 4 s c.toNat rest) (h : Escaped s pieces) :
      Escaped ('\\' :: 'u' :: s) (.char '\\' :: .char 'u' :: pieces)
  | hexByte {b : UInt8} {s rest : List Char} {pieces : List Piece}
      (hs : StartsHex 2 s b.toNat rest) (h : Escaped rest pieces) :
      Escaped ('\\' :: 'x' :: s) (.byte b :: pieces)
  /-- Without two digits the escape is kept. -/
  | noHexByte {s : List Char} {pieces : List Piece}
      (hs : ∀ value rest, ¬StartsHex 2 s value rest) (h : Escaped s pieces) :
      Escaped ('\\' :: 'x' :: s) (.char '\\' :: .char 'x' :: pieces)
  /-- The longest octal digits that write a byte, up to three. -/
  | octal {b : UInt8} {s rest : List Char} {pieces : List Piece} (hs : StartsOctal s b rest)
      (longest : ∀ b' rest', StartsOctal s b' rest' → rest.length ≤ rest'.length)
      (h : Escaped rest pieces) : Escaped ('\\' :: s) (.byte b :: pieces)
  /-- Any other character stands for itself. -/
  | other {c : Char} {s : List Char} {pieces : List Piece} (hl : ∀ d, (c, d) ∉ letters)
      (hu : c ≠ 'u') (hx : c ≠ 'x') (ho : ∀ d, ¬Text.IsDigit 8 c d) (h : Escaped s pieces) :
      Escaped ('\\' :: c :: s) (.char c :: pieces)

namespace Piece

theorem letter?_eq_some_iff {e c : Char} : letter? e = some c ↔ (e, c) ∈ letters := by
  constructor
  · intro h
    unfold letter? at h
    split_ifs at h with h₁ h₂ h₃ h₄
    · simp [letters, h₁, ← Option.some.inj h]
    · simp [letters, h₂, ← Option.some.inj h]
    · simp [letters, h₃, ← Option.some.inj h]
    · obtain rfl := Option.some.inj h
      simp only [isQuote, Bool.or_eq_true, decide_eq_true_eq] at h₄
      rcases h₄ with rfl | rfl | rfl <;> simp [letters]
  · intro h
    simp only [letters, List.mem_cons, Prod.mk.injEq, List.not_mem_nil, or_false] at h
    rcases h with ⟨rfl, rfl⟩ | ⟨rfl, rfl⟩ | ⟨rfl, rfl⟩ | ⟨rfl, rfl⟩ | ⟨rfl, rfl⟩ | ⟨rfl, rfl⟩
      <;> rfl

theorem isOctal_iff {c : Char} : isOctal c = true ↔ ∃ d, Text.IsDigit 8 c d := by
  simp only [isOctal, Option.isSome_iff_exists, Text.digitValue?_eq_some_iff]

theorem hexPrefix?_eq_some_iff {n value : Nat} (hn : 0 < n) {s rest : List Char} :
    hexPrefix? n s = some value ∧ rest = s.drop n ↔ StartsHex n s value rest := by
  unfold hexPrefix? StartsHex
  constructor
  · rintro ⟨h, rfl⟩
    split_ifs at h with hlen
    have htake : (s.take n).length = n := by
      rw [List.length_take]
      omega
    refine ⟨s.take n, (List.take_append_drop n s).symm, htake, ?_⟩
    rw [Text.readNat?] at h
    split_ifs at h
    exact Text.readDigits?_zero_iff.mp h
  · rintro ⟨digits, rfl, rfl, hw⟩
    have hne : digits ≠ [] := List.length_pos_iff.mp hn
    simp [Text.readNat?, hne, Text.readDigits?_zero_iff, hw]

theorem codePoint?_eq_some_iff {c : Char} {s rest : List Char} :
    codePoint? s = some c ∧ rest = s.drop 4 ↔ StartsHex 4 s c.toNat rest := by
  rw [← hexPrefix?_eq_some_iff (by decide), codePoint?, Option.bind_eq_some_iff]
  refine and_congr_left fun _ => ⟨?_, fun h => ⟨_, h, ?_⟩⟩
  · rintro ⟨n, hn, h⟩
    obtain ⟨hv, h⟩ := Option.dite_none_right_eq_some.mp h
    obtain rfl := Option.some.inj h
    have hnat : (Char.ofNatAux n hv).toNat = n := UInt32.toNat_ofNatLT ..
    rwa [hnat]
  · have hv : c.toNat.isValidChar := c.valid
    rw [dif_pos hv]
    exact congrArg some (Char.ext (UInt32.toNat_inj.mp (UInt32.toNat_ofNatLT ..)))

theorem hexByte_iff {b : UInt8} {s rest : List Char} :
    (∃ n, hexPrefix? 2 s = some n ∧ UInt8.ofNat n = b) ∧ rest = s.drop 2
      ↔ StartsHex 2 s b.toNat rest := by
  rw [← hexPrefix?_eq_some_iff (by decide)]
  refine and_congr_left fun _ => ⟨?_, fun h => ⟨_, h, UInt8.ofNat_toNat⟩⟩
  rintro ⟨n, hn, rfl⟩
  obtain ⟨digits, -, hlen, hw⟩ := (hexPrefix?_eq_some_iff (by decide)).mp ⟨hn, rfl⟩
  have hlt := hw.lt
  rw [hlen] at hlt
  rwa [Text.toNat_ofNat hlt]

/-! ## Octal digits -/

theorem exists_writes {s : List Char} (h : ∀ c ∈ s, isOctal c = true) :
    ∃ n, Text.Writes 8 s n := by
  induction s with
  | nil => exact ⟨0, .nil⟩
  | cons c s ih =>
    obtain ⟨n, hn⟩ := ih fun x hx => h x (List.mem_cons_of_mem _ hx)
    obtain ⟨d, hd⟩ := isOctal_iff.mp (h c List.mem_cons_self)
    exact ⟨_, .cons hd hn⟩

theorem isOctal_of_writes {s : List Char} {n : Nat} (h : Text.Writes 8 s n) :
    ∀ c ∈ s, isOctal c = true := by
  induction h with
  | nil => simp
  | cons hd _ ih => exact List.forall_mem_cons.mpr ⟨isOctal_iff.mpr ⟨_, hd⟩, ih⟩

/-- Octal digits that a text starts with are among the first three characters that are octal. -/
theorem prefix_of_startsOctal {s rest : List Char} {b : UInt8} (h : StartsOctal s b rest) :
    ∃ digits, s = digits ++ rest ∧ digits <+: (s.take 3).takeWhile isOctal
      ∧ Text.Writes 8 digits b.toNat := by
  obtain ⟨digits, rfl, -, hlen, hw⟩ := h
  refine ⟨digits, rfl, ?_, hw⟩
  rw [List.take_append, List.take_of_length_le hlen,
    List.takeWhile_append_of_pos (isOctal_of_writes hw)]
  exact List.prefix_append _ _

theorem length_drop_le_of_prefix {α : Type} {front own rest : List α} (h : front <+: own) :
    ((front ++ rest).drop own.length).length ≤ rest.length := by
  have hle := h.length_le
  simp only [List.length_drop, List.length_append]
  omega

/-- Of at most three octal digits only three can pass the largest byte. -/
theorem length_front_of_large {front : List Char} {x : Char} {n : Nat}
    (hlen : (front ++ [x]).length ≤ 3) (hn : Text.Writes 8 (front ++ [x]) n) (h : 0xff < n) :
    front.length = 2 := by
  have hlt := hn.lt
  simp only [List.length_append, List.length_singleton] at hlen hlt
  by_contra hne
  have hpow : 8 ^ (front.length + 1) ≤ 8 ^ 2 := Nat.pow_le_pow_right (by decide) (by omega)
  omega

/-- The byte of an octal escape is the one that the longest digits write. -/
theorem startsOctal_octal {c : Char} {s : List Char} (hc : isOctal c = true) :
    0 < (octal (c :: s)).2
      ∧ StartsOctal (c :: s) (UInt8.ofNat (octal (c :: s)).1) ((c :: s).drop (octal (c :: s)).2)
      ∧ ∀ b rest, StartsOctal (c :: s) b rest →
        ((c :: s).drop (octal (c :: s)).2).length ≤ rest.length := by
  have hmax := fun b rest => @prefix_of_startsOctal (c :: s) rest b
  have hpre : ((c :: s).take 3).takeWhile isOctal <+: c :: s :=
    (List.takeWhile_prefix _).trans (List.take_prefix 3 _)
  have hlen : (((c :: s).take 3).takeWhile isOctal).length ≤ 3 :=
    (List.takeWhile_prefix _).length_le.trans (List.length_take_le 3 _)
  have hne : ((c :: s).take 3).takeWhile isOctal ≠ [] := by simp [hc]
  have hall : ∀ x ∈ ((c :: s).take 3).takeWhile isOctal, isOctal x = true :=
    fun x hx => List.mem_takeWhile_imp hx
  unfold octal
  dsimp only
  generalize ((c :: s).take 3).takeWhile isOctal = digits at hmax hpre hlen hne hall ⊢
  generalize c :: s = text at *
  obtain ⟨rest, rfl⟩ := hpre
  obtain ⟨n, hn⟩ := exists_writes hall
  rw [Text.readDigits?_zero_iff.mpr hn, Option.getD_some]
  split_ifs with hbyte
  · refine ⟨List.length_pos_iff.mpr hne, ⟨digits, by simp, hne, hlen, ?_⟩, fun b rest' h => ?_⟩
    · rwa [Text.toNat_ofNat (Nat.lt_succ_of_le hbyte)]
    · obtain ⟨digits', htext, hprefix, -⟩ := hmax b rest' h
      rw [htext]
      exact length_drop_le_of_prefix hprefix
  · -- the first two digits write a byte
    obtain ⟨front, x, rfl⟩ : ∃ front x, digits = front ++ [x] :=
      ⟨_, _, (List.dropLast_concat_getLast hne).symm⟩
    obtain ⟨m, hm⟩ := exists_writes fun y hy => hall y (List.mem_append_left _ hy)
    have hfront := length_front_of_large hlen hn (Nat.lt_of_not_le hbyte)
    have hlt := hm.lt
    rw [hfront] at hlt
    simp only [List.dropLast_concat, Text.readDigits?_zero_iff.mpr hm, Option.getD_some,
      List.length_append, List.length_singleton, Nat.add_sub_cancel]
    refine ⟨by omega, ⟨front, by simp, ?_, by omega, ?_⟩, fun b rest' h => ?_⟩
    · rintro rfl
      simp at hfront
    · rwa [Text.toNat_ofNat (by omega)]
    · obtain ⟨digits', htext, hprefix, hw⟩ := hmax b rest' h
      rw [htext]
      refine length_drop_le_of_prefix ((List.prefix_concat_iff.mp hprefix).resolve_left ?_)
      -- all three digits write no byte
      rintro rfl
      have hb := b.toNat_lt
      have hsame := hn.unique hw
      omega

theorem startsOctal_unique {s rest rest' : List Char} {b b' : UInt8} (h : StartsOctal s b rest)
    (h' : StartsOctal s b' rest') (hlen : rest.length = rest'.length) : b = b' ∧ rest = rest' := by
  obtain ⟨digits, rfl, -, -, hw⟩ := h
  obtain ⟨digits', heq, -, -, hw'⟩ := h'
  obtain ⟨rfl, rfl⟩ := List.append_inj' heq hlen
  exact ⟨UInt8.toNat_inj.mp (hw.unique hw'), rfl⟩

theorem octal_iff {c : Char} {s rest : List Char} {b : UInt8} (hc : isOctal c = true) :
    (StartsOctal (c :: s) b rest
        ∧ ∀ b' rest', StartsOctal (c :: s) b' rest' → rest.length ≤ rest'.length)
      ↔ b = UInt8.ofNat (octal (c :: s)).1 ∧ rest = s.drop ((octal (c :: s)).2 - 1) := by
  obtain ⟨hpos, hs, hlongest⟩ := @startsOctal_octal c s hc
  obtain ⟨k, hk⟩ := Nat.exists_eq_succ_of_ne_zero hpos.ne'
  rw [hk] at hs hlongest ⊢
  constructor
  · rintro ⟨h, hl⟩
    exact startsOctal_unique h hs (Nat.le_antisymm (hl _ _ hs) (hlongest _ _ h))
  · rintro ⟨rfl, rfl⟩
    exact ⟨hs, hlongest⟩

theorem startsOctal_head {s rest : List Char} {b : UInt8} (h : StartsOctal s b rest) :
    ∃ c t, s = c :: t ∧ isOctal c = true := by
  obtain ⟨digits, rfl, hne, -, hw⟩ := h
  obtain ⟨c, t, rfl⟩ := List.exists_cons_of_ne_nil hne
  exact ⟨c, t ++ rest, rfl, isOctal_of_writes hw c List.mem_cons_self⟩

/-- No octal digit starts another escape. -/
theorem letter?_of_isOctal {c : Char} (h : isOctal c = true) :
    letter? c = none ∧ c ≠ 'u' ∧ c ≠ 'x' := by
  refine ⟨?_, ?_, ?_⟩
  · by_contra hl
    obtain ⟨d, hd⟩ := Option.ne_none_iff_exists'.mp hl
    have hmem := letter?_eq_some_iff.mp hd
    have hall : ∀ x ∈ letters, isOctal x.1 = false := by decide
    simp [hall _ hmem] at h
  · rintro rfl
    exact absurd h (by decide)
  · rintro rfl
    exact absurd h (by decide)

/-! ## The pieces of an escaped text -/

theorem ofEscaped_cons {c : Char} (hc : c ≠ '\\') (s : List Char) :
    ofEscaped (c :: s) = char c :: ofEscaped s := by
  rw [ofEscaped]
  · exact fun h _ => hc h
  · exact fun _ _ h _ => hc h

theorem ofEscaped_letter {e c : Char} (h : letter? e = some c) (s : List Char) :
    ofEscaped ('\\' :: e :: s) = char c :: ofEscaped s := by
  rw [ofEscaped, h]

/-- The pieces read from an escaped text are pieces of it. -/
theorem escaped_ofEscaped (s : List Char) : Escaped s (ofEscaped s) := by
  fun_induction ofEscaped s with
  | case1 => exact .nil
  | case2 => exact .final
  | case3 e s c h ih => exact .letter (letter?_eq_some_iff.mp h) ih
  | case4 s c h _ ih => exact .codePoint (codePoint?_eq_some_iff.mp ⟨h, rfl⟩) ih
  | case5 s h _ ih =>
    refine .noCodePoint (fun c rest hs => ?_) ih
    have hc := (codePoint?_eq_some_iff.mpr hs).1
    simp [h] at hc
  | case6 s n h _ _ ih => exact .hexByte (hexByte_iff.mp ⟨⟨n, h, rfl⟩, rfl⟩) ih
  | case7 s h _ _ ih =>
    refine .noHexByte (fun n rest hs => ?_) ih
    have hn := ((hexPrefix?_eq_some_iff (by decide)).mpr hs).1
    simp [h] at hn
  | case8 c s _ _ _ ho ih =>
    obtain ⟨hs, hlongest⟩ := (octal_iff ho).mpr ⟨rfl, rfl⟩
    exact .octal hs hlongest ih
  | case9 c s hl hu hx ho ih =>
    refine .other (fun d hd => ?_) hu hx (fun d hd => ?_) ih
    · rw [letter?_eq_some_iff.mpr hd] at hl
      simp at hl
    · exact ho (isOctal_iff.mpr ⟨d, hd⟩)
  | case10 c s hne hne' ih =>
    refine .plain (fun hc => ?_) ih
    rcases s with _ | ⟨x, s⟩
    · exact hne hc rfl
    · exact hne' x s hc rfl

/-- The pieces of an escaped text are those that are read from it. -/
theorem ofEscaped_of_escaped {s : List Char} {pieces : List Piece} (h : Escaped s pieces) :
    ofEscaped s = pieces := by
  induction h with
  | nil => rw [ofEscaped]
  | final => rw [ofEscaped]
  | plain hc _ ih => rw [ofEscaped_cons hc, ih]
  | letter he _ ih => rw [ofEscaped_letter (letter?_eq_some_iff.mpr he), ih]
  | codePoint hs _ ih =>
    obtain ⟨hc, rfl⟩ := codePoint?_eq_some_iff.mpr hs
    rw [ofEscaped, show letter? 'u' = none from rfl, if_pos rfl, hc, ih]
  | @noCodePoint s _ hs _ ih =>
    have hc : codePoint? s = none := by
      by_contra hc
      obtain ⟨c, hc⟩ := Option.ne_none_iff_exists'.mp hc
      exact hs c _ (codePoint?_eq_some_iff.mp ⟨hc, rfl⟩)
    rw [ofEscaped, show letter? 'u' = none from rfl, if_pos rfl, hc, ih]
  | hexByte hs _ ih =>
    obtain ⟨⟨n, hn, rfl⟩, rfl⟩ := hexByte_iff.mpr hs
    rw [ofEscaped, show letter? 'x' = none from rfl, if_neg (by decide), if_pos rfl, hn, ih]
  | @noHexByte s _ hs _ ih =>
    have hn : hexPrefix? 2 s = none := by
      by_contra hn
      obtain ⟨n, hn⟩ := Option.ne_none_iff_exists'.mp hn
      exact hs n _ ((hexPrefix?_eq_some_iff (by decide)).mp ⟨hn, rfl⟩)
    rw [ofEscaped, show letter? 'x' = none from rfl, if_neg (by decide), if_pos rfl, hn, ih]
  | @octal b s rest _ hs longest _ ih =>
    obtain ⟨c, s, rfl, hc⟩ := startsOctal_head hs
    obtain ⟨rfl, rfl⟩ := (octal_iff hc).mp ⟨hs, longest⟩
    obtain ⟨hl, hu, hx⟩ := letter?_of_isOctal hc
    rw [ofEscaped, hl, if_neg hu, if_neg hx, if_pos hc, ih]
  | @other c s _ hl hu hx ho _ ih =>
    have hl : letter? c = none := by
      by_contra hl'
      obtain ⟨d, hd⟩ := Option.ne_none_iff_exists'.mp hl'
      exact hl d (letter?_eq_some_iff.mp hd)
    have ho : ¬isOctal c = true := fun h => by
      obtain ⟨d, hd⟩ := isOctal_iff.mp h
      exact ho d hd
    rw [ofEscaped, hl, if_neg hu, if_neg hx, if_neg ho, ih]

end Piece

theorem decode_chars (s : List Char) :
    Text.decode ((s.map Piece.char).flatMap Piece.bytes) = s := by
  have hbytes : (s.map Piece.char).flatMap Piece.bytes = Text.encode s := by
    rw [List.flatMap_map]
    rfl
  rw [hbytes, Text.decode_encode]

/-- A text without a backslash is its own. -/
theorem decodeEscapes_of_notMem {s : List Char} (h : '\\' ∉ s) : decodeEscapes s = s := by
  have hpieces : Piece.ofEscaped s = s.map Piece.char := by
    induction s with
    | nil => rw [Piece.ofEscaped]; rfl
    | cons c s ih =>
      rw [List.mem_cons, not_or] at h
      rw [Piece.ofEscaped_cons (Ne.symm h.1), ih h.2, List.map_cons]
  rw [decodeEscapes, hpieces, decode_chars]

/-- Decoding the escapes of a text gives what its pieces stand for, and changes nothing without a
backslash. -/
theorem decodeEscapesText_eq_iff {s t : String} :
    (decodeEscapesText s = t ↔ ∃ pieces, Escaped s.toList pieces ∧ RunsText pieces t.toList)
      ∧ ('\\' ∈ s.toList ∨ decodeEscapesText s = s) := by
  refine ⟨?_, ?_⟩
  · rw [← String.toList_inj, decodeEscapesText, String.toList_ofList, decodeEscapes]
    constructor
    · exact fun h => ⟨_, Piece.escaped_ofEscaped s.toList, runsText_iff.mpr h⟩
    · rintro ⟨pieces, hs, ht⟩
      rw [Piece.ofEscaped_of_escaped hs, runsText_iff.mp ht]
  · refine (em _).imp_right fun h => ?_
    rw [decodeEscapesText, decodeEscapes_of_notMem h, String.ofList_toList]

end Task

end Briefing
