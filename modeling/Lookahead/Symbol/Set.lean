import Lookahead.Symbol.Basic

/-!
# Finite sets of symbols

A set of symbols is its strictly ascending list of members, in code point order. A set has one
representation only, so two sets with the same members are equal (`ext_mem`), and the order in
which members arrive leaves no trace. Sizes follow inclusion (`size_le_of_subset`), strictly so
between different sets (`size_lt_of_subset_of_ne`), which is what ends the loops that only ever
enlarge sets.
-/

namespace Lookahead

/-- Of two different symbols, one is the smaller. -/
theorem Symbol.lt_of_not_lt_of_ne {a b : Symbol} (h : ¬ a < b) (hne : a ≠ b) : b < a := by
  grind

/-- A set of symbols: its members in ascending order. -/
structure SymbolSet where
  toList : List Symbol
  sorted : toList.Pairwise (· < ·)
  deriving DecidableEq, Repr

namespace SymbolSet

/-- The set without members. -/
def empty : SymbolSet := ⟨[], .nil⟩

instance : EmptyCollection SymbolSet := ⟨empty⟩

instance : Inhabited SymbolSet := ⟨∅⟩

instance : Membership Symbol SymbolSet := ⟨fun set a => a ∈ set.toList⟩

instance (a : Symbol) (set : SymbolSet) : Decidable (a ∈ set) :=
  inferInstanceAs (Decidable (a ∈ set.toList))

instance : HasSubset SymbolSet := ⟨fun s t => ∀ a, a ∈ s → a ∈ t⟩

/-- The number of members. -/
def size (set : SymbolSet) : Nat := set.toList.length

/-- Whether the set has no members. -/
def isEmpty (set : SymbolSet) : Bool := set.toList.isEmpty

/-- The members that satisfy `p`. -/
def filter (p : Symbol → Bool) (set : SymbolSet) : SymbolSet :=
  ⟨set.toList.filter p, set.sorted.filter p⟩

/-- Places a symbol into an ascending list, unless the list holds it already. -/
def insertAscending (a : Symbol) : List Symbol → List Symbol
  | [] => [a]
  | b :: rest =>
    if a < b then a :: b :: rest
    else if a = b then b :: rest
    else b :: insertAscending a rest

/-- Placing a symbol adds it to the members. -/
theorem mem_insertAscending {a x : Symbol} {l : List Symbol} :
    x ∈ insertAscending a l ↔ x = a ∨ x ∈ l := by
  induction l with
  | nil => simp [insertAscending]
  | cons b rest ih => grind [insertAscending]

/-- Placing a symbol keeps the order strictly ascending. -/
theorem insertAscending_sorted (a : Symbol) {l : List Symbol} (h : l.Pairwise (· < ·)) :
    (insertAscending a l).Pairwise (· < ·) := by
  induction l with
  | nil => simp [insertAscending]
  | cons b rest ih =>
    obtain ⟨hb, hrest⟩ := List.pairwise_cons.mp h
    rw [insertAscending]
    split
    · rename_i hab
      refine List.pairwise_cons.mpr ⟨fun x hx => ?_, h⟩
      rcases List.mem_cons.mp hx with rfl | hx
      · exact hab
      · exact String.lt_trans hab (hb x hx)
    · rename_i hab
      split
      · exact h
      · rename_i hne
        -- `a` is larger than the head, and goes somewhere behind it
        refine List.pairwise_cons.mpr ⟨fun x hx => ?_, ih hrest⟩
        rcases mem_insertAscending.mp hx with rfl | hx
        · exact Symbol.lt_of_not_lt_of_ne hab hne
        · exact hb x hx

/-- The set with one more member. -/
def insert (set : SymbolSet) (a : Symbol) : SymbolSet :=
  ⟨insertAscending a set.toList, insertAscending_sorted a set.sorted⟩

/-- The set with the symbols of a list as further members. -/
def insertAll (set : SymbolSet) (symbols : List Symbol) : SymbolSet :=
  symbols.foldl insert set

/-- The set of the symbols of a list. -/
def ofList (symbols : List Symbol) : SymbolSet := insertAll ∅ symbols

/-- The members of either set. -/
def union (s t : SymbolSet) : SymbolSet := s.insertAll t.toList

instance : Union SymbolSet := ⟨union⟩

/-- The members of any set of a list. -/
def unionAll (sets : List SymbolSet) : SymbolSet := sets.foldl (· ∪ ·) ∅

/-- The members of both sets. -/
def inter (s t : SymbolSet) : SymbolSet := s.filter (· ∈ t)

instance : Inter SymbolSet := ⟨inter⟩

/-! ## Membership -/

@[simp] theorem mem_toList {a : Symbol} {s : SymbolSet} : a ∈ s.toList ↔ a ∈ s := Iff.rfl

@[simp] theorem not_mem_empty (a : Symbol) : ¬ a ∈ (∅ : SymbolSet) := List.not_mem_nil

@[simp] theorem mem_insert {a x : Symbol} {s : SymbolSet} : x ∈ s.insert a ↔ x = a ∨ x ∈ s :=
  mem_insertAscending

/-- Inserting symbols in turn adds them all. -/
@[simp] theorem mem_insertAll {x : Symbol} {s : SymbolSet} {symbols : List Symbol} :
    x ∈ s.insertAll symbols ↔ x ∈ symbols ∨ x ∈ s := by
  induction symbols generalizing s with
  | nil => simp [insertAll]
  | cons a rest ih =>
    have hstep : s.insertAll (a :: rest) = (s.insert a).insertAll rest := rfl
    rw [hstep, ih, mem_insert, List.mem_cons]
    grind

/-- The set of a list has the symbols of the list. -/
@[simp] theorem mem_ofList {x : Symbol} {symbols : List Symbol} :
    x ∈ ofList symbols ↔ x ∈ symbols := by
  simp [ofList]

/-- The union of two sets has the members of both. -/
@[simp] theorem mem_union {x : Symbol} {s t : SymbolSet} : x ∈ s ∪ t ↔ x ∈ s ∨ x ∈ t := by
  show x ∈ s.insertAll t.toList ↔ _
  rw [mem_insertAll, mem_toList, or_comm]

/-- The union of a list of sets has the members of each. -/
@[simp] theorem mem_unionAll {x : Symbol} {sets : List SymbolSet} :
    x ∈ unionAll sets ↔ ∃ s ∈ sets, x ∈ s := by
  suffices h : ∀ t : SymbolSet, x ∈ sets.foldl (· ∪ ·) t ↔ x ∈ t ∨ ∃ s ∈ sets, x ∈ s by
    simpa [unionAll] using h ∅
  induction sets with
  | nil => simp
  | cons s rest ih =>
    intro t
    rw [List.foldl_cons, ih, mem_union]
    simp [or_assoc]

@[simp] theorem mem_filter {p : Symbol → Bool} {x : Symbol} {s : SymbolSet} :
    x ∈ s.filter p ↔ x ∈ s ∧ p x = true :=
  List.mem_filter

/-- The intersection of two sets has the common members. -/
@[simp] theorem mem_inter {x : Symbol} {s t : SymbolSet} : x ∈ s ∩ t ↔ x ∈ s ∧ x ∈ t := by
  show x ∈ s.filter (· ∈ t) ↔ _
  simp

/-! ## Inclusion and size -/

theorem subset_refl (s : SymbolSet) : s ⊆ s := fun _ h => h

theorem subset_trans {s t u : SymbolSet} (hst : s ⊆ t) (htu : t ⊆ u) : s ⊆ u :=
  fun a h => htu a (hst a h)

theorem empty_subset (s : SymbolSet) : ∅ ⊆ s := fun a h => absurd h (not_mem_empty a)

theorem subset_union_left (s t : SymbolSet) : s ⊆ s ∪ t := fun _ h => mem_union.mpr (.inl h)

theorem union_subset {s t u : SymbolSet} (hs : s ⊆ u) (ht : t ⊆ u) : s ∪ t ⊆ u :=
  fun a h => (mem_union.mp h).elim (hs a) (ht a)

/-- An ascending list whose members all lie in another ascending list is a sublist of it. -/
theorem sublist_of_ascending {l m : List Symbol} (hl : l.Pairwise (· < ·))
    (hm : m.Pairwise (· < ·)) (h : ∀ a ∈ l, a ∈ m) : l.Sublist m := by
  induction m generalizing l with
  | nil =>
    cases l with
    | nil => exact .slnil
    | cons a rest => exact absurd (h a (by simp)) (by simp)
  | cons b m ih =>
    obtain ⟨hb, hm'⟩ := List.pairwise_cons.mp hm
    cases l with
    | nil => exact List.nil_sublist _
    | cons a l =>
      obtain ⟨ha, hl'⟩ := List.pairwise_cons.mp hl
      rcases List.mem_cons.mp (h a (by simp)) with rfl | ham
      · -- the heads are equal, and nothing behind them is
        refine (ih hl' hm' fun x hx => ?_).cons_cons a
        rcases List.mem_cons.mp (h x (by simp [hx])) with rfl | hxm
        · exact absurd (ha x hx) (String.lt_irrefl x)
        · exact hxm
      · -- the smaller list starts behind the head of the larger one
        refine (ih hl hm' fun x hx => ?_).cons b
        rcases List.mem_cons.mp (h x hx) with rfl | hxm
        · rcases List.mem_cons.mp hx with rfl | hxl
          · exact absurd (hb x ham) (String.lt_irrefl x)
          · exact absurd (ha x hxl) (String.lt_asymm (hb a ham))
        · exact hxm

/-- The members of a subset are in the list of the larger set in the same order. -/
theorem toList_sublist_of_subset {s t : SymbolSet} (h : s ⊆ t) : s.toList.Sublist t.toList :=
  sublist_of_ascending s.sorted t.sorted h

/-- A subset has at most as many members. -/
theorem size_le_of_subset {s t : SymbolSet} (h : s ⊆ t) : s.size ≤ t.size :=
  (toList_sublist_of_subset h).length_le

/-- A set that is included in another and not smaller than it equals it. -/
theorem eq_of_subset_of_size_eq {s t : SymbolSet} (h : s ⊆ t) (hsize : s.size = t.size) :
    s = t := by
  have hlist := (toList_sublist_of_subset h).eq_of_length hsize
  cases s
  cases t
  subst hlist
  rfl

/-- A proper subset has fewer members. -/
theorem size_lt_of_subset_of_ne {s t : SymbolSet} (h : s ⊆ t) (hne : s ≠ t) : s.size < t.size :=
  Nat.lt_of_le_of_ne (size_le_of_subset h) fun hsize => hne (eq_of_subset_of_size_eq h hsize)

/-- Two sets with the same members are the same set. -/
theorem subset_antisymm {s t : SymbolSet} (hst : s ⊆ t) (hts : t ⊆ s) : s = t :=
  eq_of_subset_of_size_eq hst (Nat.le_antisymm (size_le_of_subset hst) (size_le_of_subset hts))

/-- Sets with the same members are equal. -/
theorem ext_mem {s t : SymbolSet} (h : ∀ a, a ∈ s ↔ a ∈ t) : s = t :=
  subset_antisymm (fun a => (h a).mp) fun a => (h a).mpr

end SymbolSet

end Lookahead
