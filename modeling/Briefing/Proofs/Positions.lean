import Briefing.Task.Parse
import Mathlib.Data.List.Induction
import Mathlib.Tactic.Common

/-!
# Parameters of a command by position

A command binds the number of each argument, and then the argument's key if it has one. A key can be
a number, too, and so take the place of a position that is bound before it: a position has its
argument unless that argument or a later one has the position as its key
(`Command.params_get?_decimal`).
-/

namespace Briefing.Task

open Text (decimal)

/-- What an argument gives for its position: its value, or its canonical text if it is named. -/
def Argument.atPosition (a : Argument) : String :=
  match a.key with
  | some _ => a.render
  | none => a.value

/-- The last argument with the key among those that are bound after position `n` is; all of them if
there is no such position. -/
def keyedAfter (key : String) (n : Nat) (args : List Argument) : Option Argument :=
  (if n ≤ args.length then args.drop (n - 1) else args).findRev? fun a => a.key = some key

namespace Command

/-- The argument that takes the place of position `n` by its key. -/
def keyed? (c : Command) (n : Nat) : Option Argument := keyedAfter (decimal n) n c.arguments

/-! ## The bindings of one argument -/

theorem get?_bindings (items : List (String × String)) (m n : Nat) (a : Argument) :
    (Table.ofList (items ++ bindings m a)).get? (decimal n)
      = if a.key = some (decimal n) then some a.value
        else if m = n then some a.atPosition
        else (Table.ofList items).get? (decimal n) := by
  have hposition : decimal m = decimal n ↔ m = n := ⟨Text.decimal_inj, congrArg decimal⟩
  obtain ⟨key, value⟩ := a
  rcases key with _ | key
  · simp [bindings, Table.get?_ofList_concat, Argument.atPosition, hposition]
  · have htwo : items ++ bindings m ⟨some key, value⟩
        = items ++ [(decimal m, Argument.render ⟨some key, value⟩)] ++ [(key, value)] := by
      simp [bindings]
    rw [htwo, Table.get?_ofList_concat, Table.get?_ofList_concat]
    simp [Argument.atPosition, hposition]

theorem keyedAfter_concat (key : String) (n : Nat) (args : List Argument) (a : Argument) :
    keyedAfter key n (args ++ [a])
      = if a.key = some key then some a
        else if args.length + 1 = n then none
        else keyedAfter key n args := by
  unfold keyedAfter
  rw [List.length_append, List.length_singleton]
  by_cases ha : a.key = some key
  · by_cases hn : n ≤ args.length + 1
    · rw [if_pos hn, if_pos ha, List.drop_append_of_le_length (by omega)]
      simp [ha]
    · rw [if_neg hn, if_pos ha]
      simp [ha]
  · rcases Nat.lt_trichotomy n (args.length + 1) with h | rfl | h
    · rw [if_pos (Nat.le_of_lt h), if_pos (Nat.le_of_lt_succ h), if_neg ha,
        if_neg (Nat.ne_of_gt h), List.drop_append_of_le_length (by omega)]
      simp [ha]
    · simp [ha]
    · rw [if_neg (Nat.not_le.mpr h), if_neg ha, if_neg (Nat.ne_of_lt h), if_neg (by omega)]
      simp [ha]

theorem argument?_concat (name : String) (args : List Argument) (a : Argument)
    (source : Option String) (n : Nat) :
    argument? ⟨name, args ++ [a], source⟩ n
      = if args.length + 1 = n then some a else argument? ⟨name, args, source⟩ n := by
  rcases n with _ | n
  · simp [argument?]
  · rcases Nat.lt_trichotomy n args.length with h | rfl | h
    · simp [argument?, List.getElem?_append_left h, (Nat.ne_of_lt h).symm]
    · simp [argument?]
    · have hnone : (args ++ [a])[n]? = none := List.getElem?_eq_none (by simp; omega)
      have hnone' : args[n]? = none := List.getElem?_eq_none (Nat.le_of_lt h)
      simp [argument?, hnone, hnone', Nat.ne_of_lt h]

theorem argument?_eq_some_iff {c : Command} {n : Nat} {a : Argument} :
    c.argument? n = some a ↔ 0 < n ∧ c.arguments[n - 1]? = some a := by
  rw [argument?]
  split_ifs with h
  · simp [h]
  · simp [Nat.pos_of_ne_zero h]

theorem isSome_argument? {c : Command} {n : Nat} :
    (c.argument? n).isSome = true ↔ 0 < n ∧ n ≤ c.arguments.length := by
  simp only [Option.isSome_iff_exists, argument?_eq_some_iff, List.getElem?_eq_some_iff]
  constructor
  · rintro ⟨_, hn, h, -⟩
    omega
  · rintro ⟨hn, h⟩
    exact ⟨_, hn, by omega, rfl⟩

/-- Which arguments can take the place of a position: those from the position on, and all of them if
there is none. -/
theorem keyed?_eq_none_iff (c : Command) (n : Nat) :
    c.keyed? n = none ↔ ∀ i a, c.argument? i = some a → a.key = some (decimal n) →
      i < n ∧ (c.argument? n).isSome = true := by
  simp only [keyed?, keyedAfter, List.findRev?_eq_find?_reverse, List.find?_eq_none,
    List.mem_reverse, decide_eq_true_eq, isSome_argument?, argument?_eq_some_iff]
  split_ifs with h
  · simp only [List.mem_iff_getElem?, List.getElem?_drop]
    constructor
    · rintro hnone i a ⟨hi, ha⟩ hkey
      by_contra hlt
      refine hnone a ⟨i - 1 - (n - 1), ?_⟩ hkey
      rwa [Nat.add_sub_cancel' (by omega)]
    · rintro hall a ⟨i, ha⟩ hkey
      have := hall (n - 1 + i + 1) a ⟨by omega, ha⟩ hkey
      omega
  · simp only [List.mem_iff_getElem?]
    constructor
    · rintro hnone i a ⟨hi, ha⟩ hkey
      exact absurd hkey (hnone a ⟨_, ha⟩)
    · rintro hall a ⟨i, ha⟩ hkey
      have := hall (i + 1) a ⟨by omega, ha⟩ hkey
      omega

/-! ## Positions -/

/-- The bindings, seen at a position. -/
theorem get?_params (c : Command) (n : Nat) :
    c.params.get? (decimal n)
      = ((c.keyed? n).map Argument.value).or ((c.argument? n).map Argument.atPosition) := by
  have hname : argumentsKey ≠ decimal n := by
    intro h
    have hA : 'A' ∈ (decimal n).toList := h ▸ List.mem_cons_self
    exact absurd (Text.isDigit_of_mem_decimal hA) (by decide)
  obtain ⟨name, args, source⟩ := c
  rw [params, Table.get?_ofList_concat, if_neg hname]
  dsimp only
  unfold keyed?
  induction args using List.reverseRecOn with
  | nil => simp [keyedAfter, argument?, Table.ofList, Table.insertAll]
  | append_singleton args a ih =>
    rw [List.zipIdx_append, List.flatMap_append, List.zipIdx_singleton, List.flatMap_singleton,
      Nat.add_comm, get?_bindings, keyedAfter_concat, argument?_concat, ih]
    split_ifs <;> rfl

/-- A position has its argument, unless it is the key of that argument or of a later one, or of any
argument if there is no such position; the last of these takes its place. -/
theorem params_get?_decimal (c : Command) (n : Nat) :
    c.params.get? (decimal n)
        = ((c.keyed? n).map Argument.value).or ((c.argument? n).map Argument.atPosition)
      ∧ (c.keyed? n = none ↔ ∀ i a, c.argument? i = some a → a.key = some (decimal n) →
        i < n ∧ (c.argument? n).isSome = true) :=
  ⟨get?_params c n, keyed?_eq_none_iff c n⟩

/-- A key takes the place of an argument, and of a position that there is not. -/
theorem params_get?_key : ∃ c : Command, parse "/c a 1=b 7=d" = .ok ⟨[.command c]⟩
    ∧ (c.argument? 1).map Argument.atPosition = some "a" ∧ c.params.get? (decimal 1) = some "b"
    ∧ c.argument? 7 = none ∧ c.params.get? (decimal 7) = some "d" :=
  ⟨⟨"c", [⟨none, "a"⟩, ⟨some "1", "b"⟩, ⟨some "7", "d"⟩], none⟩, by decide +kernel⟩

end Command

end Briefing.Task
