import Mathlib

/-!
# Seeking by jumps

A point is sought that passes a list of tests.  From a point that fails one, the search
goes on at the point that the test jumps to, and begins again with the first test; it
gives up after so many jumps.

* `seek_passes` — what is found passes every test.
* `le_of_seek` — it is not before the point the search began at, when the jumps go
  forward.
* `seek_first` — and nothing between the two passes every test, when no test jumps over
  a point that it passes (`Leaps`).
-/

namespace Seek

/-- A test of points, and where to go on from a point that fails it. -/
structure Test (α : Type*) where
  passes : α → Bool
  /-- The next point to try. -/
  jump : α → α

variable {α : Type*}

/-- The search, from a point, with so many tries. -/
def seek (tests : List (Test α)) : ℕ → α → Option α
  | 0, _ => none
  | tries + 1, x =>
    match tests.find? fun test => !test.passes x with
    | some test => seek tests tries (test.jump x)
    | none => some x

/-- A point that passes is found at once. -/
theorem seek_of_passes {tests : List (Test α)} {x : α} (h : ∀ test ∈ tests, test.passes x = true)
    (tries : ℕ) : seek tests (tries + 1) x = some x := by
  have hnone : (tests.find? fun test => !test.passes x) = none := by
    simpa [List.find?_eq_none] using h
  simp only [seek, hnone]

/-- Where the first test to fail jumps, the search goes on. -/
theorem seek_jump {before after : List (Test α)} {test : Test α} {x : α}
    (hbefore : ∀ test ∈ before, test.passes x = true) (hfail : test.passes x = false) (tries : ℕ) :
    seek (before ++ test :: after) (tries + 1) x =
      seek (before ++ test :: after) tries (test.jump x) := by
  have hfind : (before ++ test :: after).find? (fun test => !test.passes x) = some test := by
    refine List.find?_eq_some_iff_append.2 ⟨by rw [hfail]; rfl, before, after, rfl, ?_⟩
    intro test' htest'
    rw [hbefore test' htest']
    rfl
  simp only [seek, hfind]

/-- More tries find what fewer tries have found. -/
theorem seek_mono {tests : List (Test α)} {tries tries' : ℕ} (hle : tries ≤ tries') {x y : α}
    (h : seek tests tries x = some y) : seek tests tries' x = some y := by
  induction tries generalizing x tries' with
  | zero => simp [seek] at h
  | succ tries ih =>
    obtain ⟨tries'', rfl⟩ := Nat.exists_eq_add_of_le' (Nat.one_le_of_lt hle)
    simp only [seek] at h ⊢
    split at h
    case h_1 test hfind => exact ih (Nat.le_of_succ_le_succ hle) h
    case h_2 hnone => exact h

/-- One more try: the search is over, or goes on from where a test jumps that failed. -/
theorem seek_succ {tests : List (Test α)} {tries : ℕ} {x y : α}
    (h : seek tests (tries + 1) x = some y) :
    (y = x ∧ ∀ test ∈ tests, test.passes x = true) ∨
      ∃ test ∈ tests, test.passes x = false ∧ seek tests tries (test.jump x) = some y := by
  simp only [seek] at h
  split at h
  case h_1 test hfind =>
    have hfail := List.find?_some hfind
    exact Or.inr ⟨test, List.mem_of_find?_eq_some hfind, by simpa using hfail, h⟩
  case h_2 hnone =>
    refine Or.inl ⟨(Option.some.inj h).symm, fun test htest => ?_⟩
    simpa using List.find?_eq_none.1 hnone test htest

/-- **What is found passes every test.** -/
theorem seek_passes {tests : List (Test α)} {tries : ℕ} {x y : α}
    (h : seek tests tries x = some y) : ∀ test ∈ tests, test.passes y = true := by
  induction tries generalizing x with
  | zero => simp [seek] at h
  | succ tries ih =>
    rcases seek_succ h with ⟨rfl, hpass⟩ | ⟨test, -, -, hrest⟩
    · exact hpass
    · exact ih hrest

/-! ## Points in order -/

/-- The test jumps forward from a point that fails it. -/
def Test.Forward [LT α] (test : Test α) : Prop :=
  ∀ x, test.passes x = false → x < test.jump x

/-- From a point of a set that fails it, the test jumps to a point of the set, and not
over a point that passes it. -/
def Test.Leaps [Preorder α] (I : α → Prop) (test : Test α) : Prop :=
  ∀ x, I x → test.passes x = false →
    I (test.jump x) ∧ ∀ y, x ≤ y → y < test.jump x → test.passes y = false

/-- Jumps that go forward do not end before they began. -/
theorem le_of_seek [Preorder α] {tests : List (Test α)} (hforward : ∀ test ∈ tests, test.Forward)
    {tries : ℕ} {x y : α} (h : seek tests tries x = some y) : x ≤ y := by
  induction tries generalizing x with
  | zero => simp [seek] at h
  | succ tries ih =>
    rcases seek_succ h with ⟨rfl, -⟩ | ⟨test, htest, hfail, hrest⟩
    · exact le_rfl
    · exact (hforward test htest x hfail).le.trans (ih hrest)

/-- **What is found is the first point that passes**: every point from the start up to it
fails some test. -/
theorem seek_first [LinearOrder α] {I : α → Prop} {tests : List (Test α)}
    (hleaps : ∀ test ∈ tests, test.Leaps I) {tries : ℕ} {x y : α} (hx : I x)
    (h : seek tests tries x = some y) {z : α} (hxz : x ≤ z) (hzy : z < y) :
    ∃ test ∈ tests, test.passes z = false := by
  induction tries generalizing x with
  | zero => simp [seek] at h
  | succ tries ih =>
    rcases seek_succ h with ⟨rfl, -⟩ | ⟨test, htest, hfail, hrest⟩
    · exact absurd hzy (not_lt.2 hxz)
    · obtain ⟨hjump, hover⟩ := hleaps test htest x hx hfail
      -- `z` is jumped over by the test that failed, or lies in the rest of the search
      rcases lt_or_ge z (test.jump x) with hlt | hge
      · exact ⟨test, htest, hover z hxz hlt⟩
      · exact ih hjump hrest hge

/-- A point that passes is not searched past. -/
theorem seek_le [LinearOrder α] {I : α → Prop} {tests : List (Test α)}
    (hleaps : ∀ test ∈ tests, test.Leaps I) {tries : ℕ} {x y : α} (hx : I x)
    (h : seek tests tries x = some y) {z : α} (hxz : x ≤ z)
    (hz : ∀ test ∈ tests, test.passes z = true) : y ≤ z := by
  by_contra hlt
  obtain ⟨test, htest, hfail⟩ := seek_first hleaps hx h hxz (not_le.1 hlt)
  rw [hz test htest] at hfail
  cases hfail

end Seek
