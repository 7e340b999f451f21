import Mathlib.Data.Finset.Card
import MiniVault.Core.Vault

/-!
# The passphrase policy

`core/passphrase.py`: master and user passphrases are held to the same five conditions, checked in
order; the first that does not hold is the issue reported.

The conditions are said here without the loops and searches of the code (`policy`): by the
characters at both ends, by the classes that occur, by an index at which a run begins.

## What is proved

* `hasLongRun_iff` — the loop over adjacent characters finds a run exactly where there is one.
* `evaluate_policy` — `evaluate` accepts the passphrases that meet every condition, and reports
  the first condition of the others that does not hold.
-/

namespace MiniVault

open Foundations

/-! ### Runs of one character -/

/-- `n` characters from `i` on are the same. -/
def RunAt (n : ℕ) (s : PyStr) (i : ℕ) : Prop := ∃ c, ∀ k < n, s[i + k]? = some c

theorem exists_runAt_iff (n : ℕ) (s : PyStr) (hn : 0 < n) :
    (∃ i, RunAt n s i) ↔ ∃ c, List.replicate n c <:+: s := by
  constructor
  · rintro ⟨i, c, hrun⟩
    have hlen : i + n ≤ s.length := by
      have hlast := hrun (n - 1) (by omega)
      have := (List.getElem?_eq_some_iff.mp hlast).1
      omega
    refine ⟨c, List.infix_iff_getElem?.mpr ⟨i, by rw [List.length_replicate]; omega, fun k hk => ?_⟩⟩
    rw [List.length_replicate] at hk
    rw [List.getElem_replicate, add_comm]
    exact hrun k hk
  · rintro ⟨c, hinfix⟩
    obtain ⟨i, -, hrun⟩ := List.infix_iff_getElem?.mp hinfix
    refine ⟨i, c, fun k hk => ?_⟩
    have hk' := hrun k (by rw [List.length_replicate]; exact hk)
    rwa [List.getElem_replicate, add_comm] at hk'

/-- A run does not reach over a character that is another. -/
theorem replicate_infix_of_ne {n : ℕ} {c p x : PyChar} {rest : PyStr} (hx : x ≠ p) {r : ℕ} (hr : r < n)
    (h : List.replicate n c <:+: List.replicate r p ++ x :: rest) : List.replicate n c <:+: x :: rest := by
  induction r with
  | zero => exact h
  | succ r ih =>
    rw [List.replicate_succ, List.cons_append] at h
    rcases List.infix_cons_iff.mp h with hfront | hbehind
    · -- it would begin with the characters before the other one, and reach it
      have hget : ∀ k < n, (p :: (List.replicate r p ++ x :: rest))[k]? = some c := by
        intro k hk
        obtain ⟨tail, htail⟩ := hfront
        rw [← htail, List.getElem?_append_left (by rw [List.length_replicate]; exact hk), List.getElem?_replicate, if_pos hk]
      have hc : p = c := by simpa using hget 0 (by omega)
      have hreach := hget (r + 1) hr
      rw [List.getElem?_cons_succ, List.getElem?_append_right (by simp)] at hreach
      simp only [List.length_replicate, Nat.sub_self, List.getElem?_cons_zero, Option.some.injEq] at hreach
      exact absurd (hreach.trans hc.symm) hx
    · exact ih (by omega) hbehind

/-- **What the loop of `_has_long_run` finds** behind `run` equal characters: a run in them and
what follows. -/
theorem longRunFrom_iff (previous : PyChar) {run : ℕ} (hpos : 1 ≤ run) (hlt : run < maxRepeatedRun) (rest : PyStr) :
    longRunFrom previous run rest ↔ ∃ c, List.replicate maxRepeatedRun c <:+: List.replicate run previous ++ rest := by
  induction rest generalizing previous run with
  | nil =>
    simp only [longRunFrom, Bool.false_eq_true, List.append_nil, false_iff, not_exists]
    intro c h
    have := h.length_le
    rw [List.length_replicate, List.length_replicate] at this
    omega
  | cons current rest ih =>
    by_cases hsame : current = previous
    · subst hsame
      have hshift : List.replicate run current ++ current :: rest = List.replicate (run + 1) current ++ rest := by
        rw [List.replicate_succ', List.append_assoc]
        rfl
      rw [longRunFrom, if_pos rfl, hshift]
      by_cases hfull : run + 1 ≥ maxRepeatedRun
      · simp only [hfull, decide_true, Bool.true_or, true_iff]
        have hrun : run + 1 = maxRepeatedRun := by omega
        rw [hrun]
        exact ⟨current, (List.prefix_append _ _).isInfix⟩
      · simp only [hfull, decide_false, Bool.false_or]
        exact ih current (by omega) (by omega)
    · rw [longRunFrom, if_neg hsame]
      have hone : ¬ 1 ≥ maxRepeatedRun := by decide
      simp only [hone, decide_false, Bool.false_or]
      rw [ih current le_rfl (by decide)]
      refine exists_congr fun c => ⟨fun h => h.trans (List.suffix_append _ _).isInfix, fun h => ?_⟩
      exact replicate_infix_of_ne hsame hlt h

/-- **`_has_long_run` finds the runs of four**, wherever they are. -/
theorem hasLongRun_iff (s : PyStr) : hasLongRun s ↔ ∃ i, RunAt maxRepeatedRun s i := by
  rw [exists_runAt_iff _ _ (by decide)]
  cases s with
  | nil =>
    simp only [hasLongRun, Bool.false_eq_true, false_iff, not_exists]
    intro c h
    cases List.infix_nil.mp h
  | cons c rest => exact longRunFrom_iff c le_rfl (by decide) rest

example : hasLongRun (py "abcdddd") := by decide

/-! ### Classes of characters -/

/-- The classes the policy tells apart. -/
inductive CharacterClass where
  /-- `a` to `z`. -/
  | lowercase
  /-- `A` to `Z`. -/
  | uppercase
  /-- `0` to `9`. -/
  | digit
  /-- Anything else. -/
  | other
  deriving DecidableEq

/-- The class of a character. -/
def classOf (c : PyChar) : CharacterClass :=
  if 97 ≤ c.code ∧ c.code ≤ 122 then .lowercase
  else if 65 ≤ c.code ∧ c.code ≤ 90 then .uppercase
  else if 48 ≤ c.code ∧ c.code ≤ 57 then .digit
  else .other

/-- The classes that occur. -/
def classesIn (s : PyStr) : Finset CharacterClass := (s.map classOf).toFinset

/-- What the patterns look for is a class each. -/
theorem classPatterns_eq : classPatterns =
    [CharacterClass.lowercase, .uppercase, .digit, .other].map fun k c => decide (classOf c = k) := by
  simp only [classPatterns, List.map_cons, List.map_nil, List.cons.injEq, and_true]
  refine ⟨?_, ?_, ?_, ?_⟩ <;> funext c <;>
    simp only [isLowercase, isUppercase, isDecimalDigit, classOf] <;> split_ifs <;> simp <;> omega

/-- The patterns that match are the classes that occur. -/
theorem countP_classPatterns (s : PyStr) :
    classPatterns.countP (fun pattern => s.any pattern) = (classesIn s).card := by
  have hmem : ∀ k, (s.any fun c => decide (classOf c = k)) = decide (k ∈ classesIn s) := by
    intro k
    rw [Bool.eq_iff_iff, List.any_eq_true, decide_eq_true_eq, classesIn, List.mem_toFinset, List.mem_map]
    simp only [decide_eq_true_eq]
  have hall : classesIn s =
      ([CharacterClass.lowercase, .uppercase, .digit, .other].filter fun k => decide (k ∈ classesIn s)).toFinset := by
    ext k
    rw [List.mem_toFinset, List.mem_filter, decide_eq_true_eq]
    cases k <;> simp
  rw [classPatterns_eq, List.countP_map]
  calc _ = [CharacterClass.lowercase, .uppercase, .digit, .other].countP (fun k => decide (k ∈ classesIn s)) :=
        List.countP_congr fun k _ => by rw [Function.comp_apply, hmem]
    _ = _ := by
        conv_rhs => rw [hall]
        rw [List.countP_eq_length_filter, List.toFinset_card_of_nodup (List.Nodup.filter _ (by decide))]

/-! ### Whitespace at the ends -/

/-- Nothing is stripped where there is no whitespace at either end. -/
theorem strip_eq_self_iff (s : PyStr) :
    strip s = s ↔ (∀ c, s.head? = some c → ¬ c.isSpace) ∧ ∀ c, s.getLast? = some c → ¬ c.isSpace := by
  have hlen : (strip s).length ≤ (s.dropWhile PyChar.isSpace).length := (List.rdropWhile_prefix _ _).length_le
  constructor
  · intro h
    rw [h] at hlen
    have hfront : s.dropWhile PyChar.isSpace = s := (List.dropWhile_suffix _).eq_of_length_le hlen
    have hback : s.rdropWhile PyChar.isSpace = s := by rwa [strip, hfront] at h
    refine ⟨fun c hc => ?_, fun c hc => ?_⟩
    · obtain ⟨rest, rfl⟩ := List.head?_eq_some_iff.mp hc
      have hc' := List.dropWhile_eq_self_iff.mp hfront (by simp)
      rwa [List.getElem_cons_zero] at hc'
    · obtain ⟨front, rfl⟩ := List.getLast?_eq_some_iff.mp hc
      simpa using List.rdropWhile_eq_self_iff.mp hback (by simp)
  · rintro ⟨hhead, hlast⟩
    have hfront : s.dropWhile PyChar.isSpace = s :=
      List.dropWhile_eq_self_iff.mpr fun hpos => hhead _ (by rw [List.head?_eq_getElem?, List.getElem?_eq_getElem hpos])
    rw [strip, hfront]
    exact List.rdropWhile_eq_self_iff.mpr fun hne => hlast _ (List.getLast?_eq_some_getLast hne)

/-! ### The policy -/

variable [Platform]

/-- There is no whitespace at either end. -/
def Unpadded (s : PyStr) : Prop :=
  (∀ c, s.head? = some c → ¬ c.isSpace) ∧ ∀ c, s.getLast? = some c → ¬ c.isSpace

/-- There is an index at which four characters in a row are the same. -/
def Repeats (s : PyStr) : Prop :=
  ∃ (i : ℕ) (c : PyChar), s[i]? = some c ∧ s[i + 1]? = some c ∧ s[i + 2]? = some c ∧ s[i + 3]? = some c

/-- **The conditions of the policy**, in order, with the code that says that one does not hold. -/
def policy : List (String × (PyStr → Prop)) :=
  [("TOO_SHORT", fun s => 12 ≤ s.length),
    ("SURROUNDING_WHITESPACE", Unpadded),
    ("TOO_FEW_CHARACTER_CLASSES", fun s => 3 ≤ (classesIn s).card),
    ("REPEATED_CHARACTERS", fun s => ¬ Repeats s),
    ("COMMON_PATTERN", fun s => ∀ bad ∈ forbiddenSubstrings, ¬ bad <:+: Platform.lower s)]

/-- The condition with this code does not hold, and those before it do. -/
def FirstViolated (s : PyStr) (code : String) : Prop :=
  ∃ before condition after, policy = before ++ (code, condition) :: after ∧ (∀ r ∈ before, r.2 s) ∧ ¬ condition s

omit [Platform] in
theorem hasLongRun_iff_repeats (s : PyStr) : hasLongRun s ↔ Repeats s := by
  rw [hasLongRun_iff]
  refine exists_congr fun i => exists_congr fun c => ⟨fun h => ?_, ?_⟩
  · exact ⟨h 0 (by decide), h 1 (by decide), h 2 (by decide), h 3 (by decide)⟩
  · rintro ⟨h0, h1, h2, h3⟩ k hk
    match k, hk with
    | 0, _ => exact h0
    | 1, _ => exact h1
    | 2, _ => exact h2
    | 3, _ => exact h3

omit [Platform] in
theorem padded_iff {s : PyStr} (hlong : 12 ≤ s.length) : (strip s ≠ s ∨ strip s = []) ↔ ¬ Unpadded s := by
  rw [Unpadded, ← strip_eq_self_iff]
  constructor
  · rintro (hne | hnil) h
    · exact hne h
    · rw [← h, hnil] at hlong
      simp at hlong
  · exact .inl

theorem common_iff (s : PyStr) : (forbiddenSubstrings.any fun bad => contains (Platform.lower s) bad) = true ↔
    ¬ ∀ bad ∈ forbiddenSubstrings, ¬ bad <:+: Platform.lower s := by
  simp only [List.any_eq_true, contains, decide_eq_true_eq, not_forall, not_not, exists_prop]

/-- The issue is the first condition that is violated. -/
theorem firstViolated_of {s : PyStr} {code : String} (before : List (String × (PyStr → Prop))) {condition : PyStr → Prop}
    {after : List (String × (PyStr → Prop))} (hpolicy : policy = before ++ (code, condition) :: after)
    (hbefore : ∀ r ∈ before, r.2 s) (hnot : ¬ condition s) : FirstViolated s code :=
  ⟨before, condition, after, hpolicy, hbefore, hnot⟩

/-- What `evaluate` checks is whether the conditions hold, in order. -/
theorem evaluate_cases (s : PyStr) :
    (evaluate s = none ∧ ∀ r ∈ policy, r.2 s) ∨ ∃ issue, evaluate s = some issue ∧ FirstViolated s issue.code := by
  unfold evaluate
  by_cases hshort : s.length < minLength
  · rw [if_pos hshort]
    exact .inr ⟨_, rfl, firstViolated_of [] rfl (by simp) (not_le.mpr hshort)⟩
  have hlong : 12 ≤ s.length := not_lt.mp hshort
  rw [if_neg hshort]
  by_cases hpad : strip s ≠ s ∨ strip s = []
  · rw [if_pos hpad]
    exact .inr ⟨_, rfl, firstViolated_of (policy.take 1) rfl (by simpa [policy] using hlong) ((padded_iff hlong).mp hpad)⟩
  have hunpadded : Unpadded s := not_not.mp fun h => hpad ((padded_iff hlong).mpr h)
  rw [if_neg hpad, countP_classPatterns]
  by_cases hfew : (classesIn s).card < minCharacterClasses
  · rw [if_pos hfew]
    exact .inr ⟨_, rfl, firstViolated_of (policy.take 2) rfl (by simpa [policy] using ⟨hlong, hunpadded⟩) (not_le.mpr hfew)⟩
  have hclasses : 3 ≤ (classesIn s).card := not_lt.mp hfew
  rw [if_neg hfew]
  by_cases hrun : hasLongRun s
  · rw [if_pos hrun]
    exact .inr ⟨_, rfl, firstViolated_of (policy.take 3) rfl (by simpa [policy] using ⟨hlong, hunpadded, hclasses⟩)
      (not_not.mpr ((hasLongRun_iff_repeats s).mp hrun))⟩
  have hrepeats : ¬ Repeats s := fun h => hrun ((hasLongRun_iff_repeats s).mpr h)
  rw [if_neg hrun]
  by_cases hcommon : forbiddenSubstrings.any fun bad => contains (Platform.lower s) bad
  · rw [if_pos hcommon]
    exact .inr ⟨_, rfl, firstViolated_of (policy.take 4) rfl
      (by simpa [policy] using ⟨hlong, hunpadded, hclasses, hrepeats⟩) ((common_iff s).mp hcommon)⟩
  · have hfree : ∀ bad ∈ forbiddenSubstrings, ¬ bad <:+: Platform.lower s :=
      not_not.mp fun h => hcommon ((common_iff s).mpr h)
    rw [if_neg hcommon]
    exact .inl ⟨rfl, by simpa [policy] using ⟨hlong, hunpadded, hclasses, hrepeats, hfree⟩⟩

/-- A condition that is violated does not hold. -/
theorem FirstViolated.not_all {s : PyStr} {code : String} (h : FirstViolated s code) : ¬ ∀ r ∈ policy, r.2 s := by
  obtain ⟨before, condition, after, hpolicy, -, hnot⟩ := h
  intro hall
  exact hnot (hall (code, condition) (by rw [hpolicy]; simp))

/-- **The policy accepts exactly what meets its conditions**, and reports the first condition that
does not hold; the loop for repeated characters finds the runs of four. -/
theorem evaluate_policy (s : PyStr) :
    (evaluate s = none ↔ ∀ r ∈ policy, r.2 s) ∧
      (∀ issue, evaluate s = some issue → FirstViolated s issue.code) ∧ (hasLongRun s ↔ Repeats s) := by
  rcases evaluate_cases s with ⟨hnone, hall⟩ | ⟨issue, hissue, hfirst⟩
  · refine ⟨⟨fun _ => hall, fun _ => hnone⟩, fun issue h => ?_, hasLongRun_iff_repeats s⟩
    rw [hnone] at h
    cases h
  · refine ⟨⟨fun h => ?_, fun h => absurd h hfirst.not_all⟩, fun issue' h => ?_, hasLongRun_iff_repeats s⟩
    · rw [hissue] at h
      cases h
    · rw [hissue] at h
      obtain rfl := Option.some.inj h
      exact hfirst

end MiniVault
