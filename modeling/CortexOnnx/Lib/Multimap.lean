import Mathlib.Data.List.Basic
import Mathlib.Order.Lattice

/-!
# Ordered tables with repeated keys

The entries are sorted by a key that several of them may share.  A new entry goes behind those that
are not greater, so entries with equal keys stay in the order in which they came.
-/

namespace CortexOnnx

variable {α β κ : Type} [LinearOrder κ]

structure Multimap (key : α → κ) where
  entries : List α
  sorted : entries.Pairwise fun a b => key a ≤ key b

namespace Multimap

variable {key : α → κ} {key' : β → κ}

theorem ext_entries {m m' : Multimap key} (h : m.entries = m'.entries) : m = m' := by
  cases m
  cases m'
  cases h
  rfl

def empty : Multimap key where
  entries := []
  sorted := .nil

def emplace (m : Multimap key) (a : α) : Multimap key where
  entries := m.entries.filter (key · ≤ key a) ++ a :: m.entries.filter (key a < key ·)
  sorted := by
    rw [List.pairwise_append, List.pairwise_cons]
    refine ⟨m.sorted.filter _, ⟨fun b hb => ?_, m.sorted.filter _⟩, fun b hb c hc => ?_⟩
    · exact le_of_lt (of_decide_eq_true (List.mem_filter.mp hb).2)
    · have hlow : key b ≤ key a := of_decide_eq_true (List.mem_filter.mp hb).2
      rcases List.mem_cons.mp hc with rfl | hc
      · exact hlow
      · exact le_trans hlow (le_of_lt (of_decide_eq_true (List.mem_filter.mp hc).2))

/-- The first entry with a key. -/
def find (m : Multimap key) (k : κ) : Option α := m.entries.find? (key · = k)

/-- Without the entries of a key. -/
def erase (m : Multimap key) (k : κ) : Multimap key where
  entries := m.entries.filter (key · ≠ k)
  sorted := m.sorted.filter _

/-- Without the first entry of a key. -/
def eraseFirst (m : Multimap key) (k : κ) : Multimap key where
  entries := m.entries.eraseP (key · = k)
  sorted := m.sorted.sublist List.eraseP_sublist

/-- Entries as they come. -/
def ofList (l : List α) : Multimap key := l.foldl emplace empty

theorem mem_emplace {m : Multimap key} {a b : α} :
    b ∈ (m.emplace a).entries ↔ b = a ∨ b ∈ m.entries := by
  simp only [emplace, List.mem_append, List.mem_cons, List.mem_filter, decide_eq_true_eq]
  constructor
  · rintro (⟨hb, _⟩ | rfl | ⟨hb, _⟩)
    · exact .inr hb
    · exact .inl rfl
    · exact .inr hb
  · rintro (rfl | hb)
    · exact .inr (.inl rfl)
    · rcases le_or_gt (key b) (key a) with hle | hlt
      · exact .inl ⟨hb, hle⟩
      · exact .inr (.inr ⟨hb, hlt⟩)

/-- The first entry with a key stays the first. -/
theorem find_emplace (m : Multimap key) (a : α) (k : κ) :
    (m.emplace a).find k = (m.find k).or (if key a = k then some a else none) := by
  have hnone : ∀ {p : α → Bool}, (∀ b, p b = true → key b ≠ k) →
      (m.entries.filter p).find? (key · = k) = none := by
    intro p hp
    rw [List.find?_eq_none]
    intro b hb
    simpa using hp b (List.mem_filter.mp hb).2
  have hall : ∀ {p : α → Bool}, (∀ b, key b = k → p b = true) →
      (m.entries.filter p).find? (key · = k) = m.entries.find? (key · = k) := by
    intro p hp
    rw [List.find?_filter]
    congr 1
    funext b
    by_cases hb : key b = k
    · simp [hb, hp b hb]
    · simp [hb]
  rw [find, find, emplace, List.find?_append, List.find?_cons]
  rcases lt_trichotomy (key a) k with hlt | rfl | hlt
  · have hlow := hnone (p := (key · ≤ key a)) fun b hb => by
      simp only [decide_eq_true_eq] at hb
      exact ne_of_lt (lt_of_le_of_lt hb hlt)
    have hhigh := hall (p := (key a < key ·)) fun b hb => by simpa [hb] using hlt
    simp [hlow, hhigh, ne_of_lt hlt]
  · have hlow := hall (p := (key · ≤ key a)) fun b hb => by simp [hb]
    simp [hlow]
  · have hlow := hall (p := (key · ≤ key a)) fun b hb => by simpa [hb] using le_of_lt hlt
    have hhigh := hnone (p := (key a < key ·)) fun b hb => by
      simp only [decide_eq_true_eq] at hb
      exact ne_of_gt (lt_trans hlt hb)
    simp [hlow, hhigh, ne_of_gt hlt]

/-- What is not found is not found among fewer entries. -/
theorem find_none_of_subset {m m' : Multimap key} {k : κ} (hsub : m'.entries ⊆ m.entries)
    (h : m.find k = none) : m'.find k = none := by
  rw [find, List.find?_eq_none] at h ⊢
  exact fun a ha => h a (hsub ha)

theorem find_erase_self (m : Multimap key) (k : κ) : (m.erase k).find k = none := by
  rw [find, List.find?_eq_none]
  intro a ha
  have hne : key a ≠ k := of_decide_eq_true (List.mem_filter.mp ha).2
  simpa using hne

theorem erase_subset (m : Multimap key) (k : κ) : (m.erase k).entries ⊆ m.entries :=
  List.filter_subset_self _

theorem eraseFirst_subset (m : Multimap key) (k : κ) : (m.eraseFirst k).entries ⊆ m.entries :=
  List.eraseP_subset

/-! ## Entries that come in order -/

theorem emplace_last {m : Multimap key} {a : α} (h : ∀ b ∈ m.entries, key b ≤ key a) :
    (m.emplace a).entries = m.entries ++ [a] := by
  have hlow : m.entries.filter (key · ≤ key a) = m.entries :=
    List.filter_eq_self.mpr fun b hb => decide_eq_true (h b hb)
  have hhigh : m.entries.filter (key a < key ·) = [] :=
    List.filter_eq_nil_iff.mpr fun b hb => by simpa using h b hb
  show m.entries.filter (key · ≤ key a) ++ a :: m.entries.filter (key a < key ·) = _
  rw [hlow, hhigh]

theorem foldl_emplace_sorted (l : List α) (m : Multimap key)
    (h : (m.entries ++ l).Pairwise fun a b => key a ≤ key b) :
    (l.foldl emplace m).entries = m.entries ++ l := by
  induction l generalizing m with
  | nil => rw [List.foldl_nil, List.append_nil]
  | cons a l ih =>
      have hlast : (m.emplace a).entries = m.entries ++ [a] :=
        emplace_last fun b hb => (List.pairwise_append.mp h).2.2 b hb a List.mem_cons_self
      have hall : (m.emplace a).entries ++ l = m.entries ++ a :: l := by
        rw [hlast, List.append_assoc]
        rfl
      rw [List.foldl_cons, ih _ (hall ▸ h), hall]

/-- What a map of the entries keeps, under the same keys. -/
def filterMap (m : Multimap key) (f : α → Option β) (hkey : ∀ a b, f a = some b → key' b = key a) :
    Multimap key' where
  entries := m.entries.filterMap f
  sorted := m.sorted.filterMap f fun a a' hle b hb b' hb' => by
    rw [hkey a b hb, hkey a' b' hb']
    exact hle

theorem ofList_filterMap (m : Multimap key) (f : α → Option β)
    (hkey : ∀ a b, f a = some b → key' b = key a) :
    (ofList (m.entries.filterMap f) : Multimap key') = m.filterMap f hkey :=
  ext_entries (foldl_emplace_sorted _ empty (m.filterMap f hkey).sorted)

theorem find_filterMap {m : Multimap key} {f : α → Option β}
    {hkey : ∀ a b, f a = some b → key' b = key a} {k : κ} {a : α} {b : β}
    (h : m.find k = some a) (hf : f a = some b) : (m.filterMap f hkey).find k = some b := by
  obtain ⟨hk, before, after, hsplit, hbefore⟩ := List.find?_eq_some_iff_append.mp h
  rw [find, List.find?_eq_some_iff_append]
  refine ⟨?_, before.filterMap f, after.filterMap f, ?_, ?_⟩
  · rw [hkey a b hf]
    exact hk
  · show m.entries.filterMap f = _
    rw [hsplit, List.filterMap_append, List.filterMap_cons, hf]
  · intro b' hb'
    obtain ⟨a', ha', hfa'⟩ := List.mem_filterMap.mp hb'
    rw [hkey a' b' hfa']
    exact hbefore a' ha'

theorem find_filterMap_none {m : Multimap key} {f : α → Option β}
    {hkey : ∀ a b, f a = some b → key' b = key a} {k : κ} (h : m.find k = none) :
    (m.filterMap f hkey).find k = none := by
  rw [find, List.find?_eq_none] at h ⊢
  intro b hb
  obtain ⟨a, ha, hfa⟩ := List.mem_filterMap.mp hb
  rw [hkey a b hfa]
  exact h a ha

end Multimap

end CortexOnnx
