import Briefing.Text.Utf8
import Mathlib.Data.List.TakeWhile
import Mathlib.Tactic.Common

/-!
# Encoded text decodes to itself

A character's first byte says how many bytes follow it, and `decode` takes as many if they are in
the ranges it allows (`decode_append`). The bytes of a character are, so they are read as that
character whatever bytes follow (`decode_encodeChar_append`), and the bytes of a text stand for that
text (`decode_encode`).
-/

namespace Briefing.Text

/-- The number that the bytes behind a leading byte complete. -/
def payload (lead : Nat) (bytes : List UInt8) : Nat :=
  bytes.foldl (fun acc b => acc * 0x40 + b.toNat % 0x40) lead

theorem foldl_zipIdx (bytes : List UInt8) (k lead : Nat) :
    (bytes.zipIdx k).foldl (fun acc (b, _) => acc * 0x40 + b.toNat % 0x40) lead
      = payload lead bytes := by
  induction bytes generalizing k lead with
  | nil => rfl
  | cons b bytes ih => rw [List.zipIdx_cons, List.foldl_cons, ih, payload, payload, List.foldl_cons]

/-- A leading byte before all the bytes it asks for. -/
theorem decode_append {lead low high b : UInt8} (bytes : List UInt8) (hlead : ¬lead < 0x80)
    (hf : following lead = (bytes.length + 1, low, high)) (hb : low ≤ b ∧ b ≤ high)
    (hbytes : ∀ x ∈ bytes, isContinuation x = true) (more : List UInt8) :
    decode (lead :: b :: (bytes ++ more))
      = Char.ofNat (payload (leadPayload (bytes.length + 1) lead) (b :: bytes)) :: decode more := by
  have htake : (b :: (bytes ++ more)).take (bytes.length + 1) = b :: bytes := by simp
  have hown : ((b :: bytes).zipIdx.takeWhile fun (x, i) =>
      if i = 0 then low ≤ x && x ≤ high else isContinuation x) = (b :: bytes).zipIdx := by
    rw [List.takeWhile_eq_self_iff]
    rintro ⟨x, i⟩ hx
    dsimp only
    rw [List.zipIdx_cons] at hx
    rcases List.mem_cons.mp hx with he | hx
    · obtain ⟨rfl, rfl⟩ := by simpa using he
      simp [hb]
    · have hi : 1 ≤ i := List.le_snd_of_mem_zipIdx hx
      rw [if_neg (by omega)]
      exact hbytes x (List.fst_mem_of_mem_zipIdx hx)
  rw [decode, decodeOne, if_neg hlead, hf]
  dsimp only
  rw [htake, hown, if_neg (by simp), foldl_zipIdx]
  simp

theorem leadPayload_one (lead : UInt8) : leadPayload 1 lead = lead.toNat % 0x20 := rfl

theorem leadPayload_two (lead : UInt8) : leadPayload 2 lead = lead.toNat % 0x10 := rfl

theorem leadPayload_three (lead : UInt8) : leadPayload 3 lead = lead.toNat % 0x08 := rfl

theorem toNat_ofNat {n : Nat} (h : n < 256) : (UInt8.ofNat n).toNat = n :=
  UInt8.toNat_ofNat_of_lt' h

theorem following_ofNat {n : Nat} (h : n < 256) : following (UInt8.ofNat n) =
    if 0xc2 ≤ n ∧ n ≤ 0xdf then (1, 0x80, 0xbf)
    else if n = 0xe0 then (2, 0xa0, 0xbf)
    else if n = 0xed then (2, 0x80, 0x9f)
    else if 0xe1 ≤ n ∧ n ≤ 0xef then (2, 0x80, 0xbf)
    else if n = 0xf0 then (3, 0x90, 0xbf)
    else if 0xf1 ≤ n ∧ n ≤ 0xf3 then (3, 0x80, 0xbf)
    else if n = 0xf4 then (3, 0x80, 0x8f)
    else (0, 0, 0) := by
  simp [following, UInt8.le_iff_toNat_le, ← UInt8.toNat_inj, toNat_ofNat h]

theorem le_ofNat (low n high : Nat) (hl : low ≤ n) (hh : n ≤ high) (h : high < 256) :
    UInt8.ofNat low ≤ UInt8.ofNat n ∧ UInt8.ofNat n ≤ UInt8.ofNat high := by
  rw [UInt8.le_iff_toNat_le, UInt8.le_iff_toNat_le, toNat_ofNat h, toNat_ofNat (by omega),
    toNat_ofNat (by omega)]
  exact ⟨hl, hh⟩

theorem not_ofNat_lt {n : Nat} (hl : 0x80 ≤ n) (h : n < 256) : ¬UInt8.ofNat n < 0x80 := by
  rw [UInt8.lt_iff_toNat_lt, toNat_ofNat h]
  exact Nat.not_lt.mpr hl

theorem isContinuation_ofNat (n : Nat) : isContinuation (UInt8.ofNat (n % 64 + 128)) = true := by
  rw [isContinuation, Bool.and_eq_true, decide_eq_true_eq, decide_eq_true_eq]
  exact le_ofNat 0x80 (n % 64 + 128) 0xbf (by omega) (by omega) (by omega)

/-! ## Characters of two, three and four bytes -/

theorem decode_two {n : Nat} (h : 0x7f < n) (h' : n ≤ 0x7ff) (more : List UInt8) :
    decode (UInt8.ofNat (n / 64 % 32 + 192) :: UInt8.ofNat (n % 64 + 128) :: more)
      = Char.ofNat n :: decode more := by
  have hf : following (UInt8.ofNat (n / 64 % 32 + 192)) = (1, 0x80, 0xbf) := by
    rw [following_ofNat (by omega), if_pos (by omega)]
  have hpayload : payload (leadPayload 1 (UInt8.ofNat (n / 64 % 32 + 192)))
      [UInt8.ofNat (n % 64 + 128)] = n := by
    simp only [payload, leadPayload_one, List.foldl]
    rw [toNat_ofNat (by omega), toNat_ofNat (by omega)]
    omega
  have hdecode := decode_append [] (not_ofNat_lt (by omega) (by omega)) hf
    (le_ofNat 0x80 (n % 64 + 128) 0xbf (by omega) (by omega) (by omega)) (by simp) more
  rwa [List.length_nil, hpayload] at hdecode

theorem decode_three {n : Nat} (h : 0x7ff < n) (h' : n ≤ 0xffff) (hn : n < 0xd800 ∨ 0xdfff < n)
    (more : List UInt8) :
    decode (UInt8.ofNat (n / 4096 % 16 + 224) :: UInt8.ofNat (n / 64 % 64 + 128)
        :: UInt8.ofNat (n % 64 + 128) :: more)
      = Char.ofNat n :: decode more := by
  -- the leading byte keeps out overlong forms and surrogates by the range of the next one
  obtain ⟨low, high, hf, hl, hh, hlt⟩ : ∃ low high : Nat,
      following (UInt8.ofNat (n / 4096 % 16 + 224)) = (2, UInt8.ofNat low, UInt8.ofNat high)
        ∧ low ≤ n / 64 % 64 + 128 ∧ n / 64 % 64 + 128 ≤ high ∧ high < 256 := by
    rw [following_ofNat (by omega)]
    split_ifs
    · omega
    · exact ⟨0xa0, 0xbf, rfl, by omega⟩
    · exact ⟨0x80, 0x9f, rfl, by omega⟩
    · exact ⟨0x80, 0xbf, rfl, by omega⟩
    all_goals omega
  have hpayload : payload (leadPayload 2 (UInt8.ofNat (n / 4096 % 16 + 224)))
      [UInt8.ofNat (n / 64 % 64 + 128), UInt8.ofNat (n % 64 + 128)] = n := by
    simp only [payload, leadPayload_two, List.foldl]
    rw [toNat_ofNat (by omega), toNat_ofNat (by omega), toNat_ofNat (by omega)]
    omega
  have hdecode := decode_append [UInt8.ofNat (n % 64 + 128)]
    (not_ofNat_lt (by omega) (by omega)) hf (le_ofNat low _ high hl hh hlt)
    (List.forall_mem_singleton.mpr (isContinuation_ofNat n)) more
  rwa [List.length_singleton, hpayload] at hdecode

theorem decode_four {n : Nat} (h : 0xffff < n) (h' : n < 0x110000) (more : List UInt8) :
    decode (UInt8.ofNat (n / 262144 % 8 + 240) :: UInt8.ofNat (n / 4096 % 64 + 128)
        :: UInt8.ofNat (n / 64 % 64 + 128) :: UInt8.ofNat (n % 64 + 128) :: more)
      = Char.ofNat n :: decode more := by
  obtain ⟨low, high, hf, hl, hh, hlt⟩ : ∃ low high : Nat,
      following (UInt8.ofNat (n / 262144 % 8 + 240)) = (3, UInt8.ofNat low, UInt8.ofNat high)
        ∧ low ≤ n / 4096 % 64 + 128 ∧ n / 4096 % 64 + 128 ≤ high ∧ high < 256 := by
    rw [following_ofNat (by omega)]
    split_ifs
    iterate 4 omega
    · exact ⟨0x90, 0xbf, rfl, by omega⟩
    · exact ⟨0x80, 0xbf, rfl, by omega⟩
    · exact ⟨0x80, 0x8f, rfl, by omega⟩
    · omega
  have hpayload : payload (leadPayload 3 (UInt8.ofNat (n / 262144 % 8 + 240)))
      [UInt8.ofNat (n / 4096 % 64 + 128), UInt8.ofNat (n / 64 % 64 + 128),
        UInt8.ofNat (n % 64 + 128)] = n := by
    simp only [payload, leadPayload_three, List.foldl]
    rw [toNat_ofNat (by omega), toNat_ofNat (by omega), toNat_ofNat (by omega),
      toNat_ofNat (by omega)]
    omega
  have hdecode := decode_append
    [UInt8.ofNat (n / 64 % 64 + 128), UInt8.ofNat (n % 64 + 128)]
    (not_ofNat_lt (by omega) (by omega)) hf (le_ofNat low _ high hl hh hlt)
    (List.forall_mem_cons.mpr ⟨isContinuation_ofNat (n / 64),
      List.forall_mem_singleton.mpr (isContinuation_ofNat n)⟩) more
  rwa [List.length_cons, List.length_singleton, hpayload] at hdecode

/-- The bytes of a character are read as that character, whatever bytes follow. -/
theorem decode_encodeChar_append (c : Char) (more : List UInt8) :
    decode (encodeChar c ++ more) = c :: decode more := by
  have hc : c.toNat < 0xd800 ∨ 0xdfff < c.toNat ∧ c.toNat < 0x110000 := c.valid
  have hofNat := Char.ofNat_toNat c
  unfold encodeChar String.utf8EncodeChar
  dsimp only
  rw [show c.val.toNat = c.toNat from rfl]
  generalize c.toNat = n at hc hofNat ⊢
  subst hofNat
  split_ifs with h₁ h₂ h₃
  · have hlt : UInt8.ofNat n < 0x80 := by
      rw [UInt8.lt_iff_toNat_lt, toNat_ofNat (by omega)]
      exact Nat.lt_succ_of_le h₁
    rw [List.singleton_append, decode, decodeOne, if_pos hlt, toNat_ofNat (by omega)]
    rfl
  · exact decode_two (Nat.lt_of_not_le h₁) h₂ more
  · exact decode_three (Nat.lt_of_not_le h₂) h₃ (by omega) more
  · exact decode_four (Nat.lt_of_not_le h₃) (by omega) more

/-- The bytes of a text stand for it. -/
theorem decode_encode (s : List Char) : decode (encode s) = s := by
  induction s with
  | nil => simp [encode, decode]
  | cons c s ih => rw [encode, List.flatMap_cons, decode_encodeChar_append, ← encode, ih]

end Briefing.Text
