import Lookahead.Symbol.Set

/-!
# Finite maps from symbols

A map is its list of entries in ascending order of their keys, so that walking through a map means
walking through it by name. Each operation is pinned down by what `get?` reads afterwards
(`get?_alter`, `get?_modify`, `get?_ofKeys`); maps that read alike everywhere are equal
(`ext_get?`).
-/

namespace Lookahead

/-- A map from symbols: its entries in ascending order of their keys. -/
structure SymbolMap (α : Type) where
  entries : List (Symbol × α)
  sorted : entries.Pairwise fun e f => e.1 < f.1
  deriving DecidableEq, Repr

namespace SymbolMap

variable {α : Type}

/-- The map without entries. -/
def empty : SymbolMap α := ⟨[], .nil⟩

instance : EmptyCollection (SymbolMap α) := ⟨empty⟩

instance : Inhabited (SymbolMap α) := ⟨∅⟩

/-- The value of a key, if it has one. -/
def get? (map : SymbolMap α) (key : Symbol) : Option α :=
  map.entries.lookup key

/-- The value of a key, or `default` if it has none. -/
def getD (map : SymbolMap α) (key : Symbol) (default : α) : α :=
  (map.get? key).getD default

/-- Whether a key has a value. -/
def contains (map : SymbolMap α) (key : Symbol) : Bool := (map.get? key).isSome

/-- The keys that have a value. -/
def keys (map : SymbolMap α) : SymbolSet :=
  ⟨map.entries.map (·.1), List.pairwise_map.mpr map.sorted⟩

/-- The map that gives each of `keys` its value under `value`. -/
def ofKeys (keys : SymbolSet) (value : Symbol → α) : SymbolMap α where
  entries := keys.toList.map fun key => (key, value key)
  sorted := List.pairwise_map.mpr keys.sorted

/-- The map with the value of one key changed; a key without a value stays without. -/
def modify (map : SymbolMap α) (key : Symbol) (change : α → α) : SymbolMap α where
  entries := map.entries.map fun e => if e.1 = key then (e.1, change e.2) else e
  sorted := List.pairwise_map.mpr <| map.sorted.imp fun {e f} h => by
    have fst_eq : ∀ e : Symbol × α, (if e.1 = key then (e.1, change e.2) else e).1 = e.1 := by
      intro e
      split <;> rfl
    rwa [fst_eq, fst_eq]

/-- Gives a key in an ascending list of entries the value `next` computes from its present one. -/
def alterAscending (key : Symbol) (next : Option α → α) : List (Symbol × α) → List (Symbol × α)
  | [] => [(key, next none)]
  | (k, v) :: rest =>
    if key < k then (key, next none) :: (k, v) :: rest
    else if key = k then (k, next (some v)) :: rest
    else (k, v) :: alterAscending key next rest

/-- Altering an entry brings no other key. -/
theorem fst_mem_alterAscending {key : Symbol} {next : Option α → α} {l : List (Symbol × α)}
    {e : Symbol × α} (h : e ∈ alterAscending key next l) : e.1 = key ∨ ∃ f ∈ l, f.1 = e.1 := by
  induction l with
  | nil => simp_all [alterAscending]
  | cons f rest ih =>
    obtain ⟨k, v⟩ := f
    grind [alterAscending]

/-- Altering an entry keeps the keys in ascending order. -/
theorem alterAscending_sorted (key : Symbol) (next : Option α → α) {l : List (Symbol × α)}
    (h : l.Pairwise fun e f => e.1 < f.1) :
    (alterAscending key next l).Pairwise fun e f => e.1 < f.1 := by
  induction l with
  | nil => simp [alterAscending]
  | cons e rest ih =>
    obtain ⟨k, v⟩ := e
    obtain ⟨hk, hrest⟩ := List.pairwise_cons.mp h
    rw [alterAscending]
    split
    · rename_i hlt
      refine List.pairwise_cons.mpr ⟨fun x hx => ?_, h⟩
      rcases List.mem_cons.mp hx with rfl | hx
      · exact hlt
      · exact String.lt_trans hlt (hk x hx)
    · rename_i hlt
      split
      · exact List.pairwise_cons.mpr ⟨fun x hx => hk x hx, hrest⟩
      · rename_i hne
        refine List.pairwise_cons.mpr ⟨fun x hx => ?_, ih hrest⟩
        -- the keys behind the head are the old ones and the new one, which is larger
        rcases fst_mem_alterAscending hx with hx | ⟨f, hf, hfx⟩
        · exact hx ▸ Symbol.lt_of_not_lt_of_ne hlt hne
        · exact hfx ▸ hk f hf

/-- The map with the value of a key computed from its present value, if it has one. -/
def alter (map : SymbolMap α) (key : Symbol) (next : Option α → α) : SymbolMap α :=
  ⟨alterAscending key next map.entries, alterAscending_sorted key next map.sorted⟩

/-- Maps with the same entries are equal. -/
theorem ext_entries {s t : SymbolMap α} (h : s.entries = t.entries) : s = t := by
  cases s
  cases t
  subst h
  rfl

/-! ## What a map reads -/

/-- Looking a key up tests the first entry and then the others. -/
theorem lookup_cons_pair {key k : Symbol} {v : α} {rest : List (Symbol × α)} :
    ((k, v) :: rest).lookup key = if key = k then some v else rest.lookup key := by
  rw [List.lookup_cons]
  split <;> simp_all

/-- With strictly ascending keys, what a key has is what it is paired with in some entry. -/
theorem lookup_eq_some_iff {l : List (Symbol × α)} (h : l.Pairwise fun e f => e.1 < f.1)
    {key : Symbol} {v : α} : l.lookup key = some v ↔ (key, v) ∈ l := by
  induction l with
  | nil => simp
  | cons e rest ih =>
    obtain ⟨k, w⟩ := e
    obtain ⟨hk, hrest⟩ := List.pairwise_cons.mp h
    by_cases hkey : key = k
    · subst hkey
      have habsent : (key, v) ∉ rest := fun hmem => String.lt_irrefl key (hk _ hmem)
      simp only [List.lookup_cons_self, Option.some.injEq, List.mem_cons, Prod.mk.injEq, true_and,
        habsent, or_false]
      exact eq_comm
    · have hbeq : (key == k) = false := by simpa using hkey
      simp [List.lookup_cons, hbeq, hkey, ih hrest]

/-- A key reads a value exactly if the pair is an entry. -/
theorem get?_eq_some_iff {map : SymbolMap α} {key : Symbol} {v : α} :
    map.get? key = some v ↔ (key, v) ∈ map.entries :=
  lookup_eq_some_iff map.sorted

/-- The keys of a map are those that have a value. -/
theorem mem_keys {map : SymbolMap α} {key : Symbol} :
    key ∈ map.keys ↔ ∃ v, map.get? key = some v := by
  rw [← SymbolSet.mem_toList]
  simp only [keys, List.mem_map, get?_eq_some_iff]
  constructor
  · rintro ⟨⟨k, v⟩, hmem, rfl⟩
    exact ⟨v, hmem⟩
  · rintro ⟨v, hmem⟩
    exact ⟨(key, v), hmem, rfl⟩

/-- Altering an entry changes what its key has, and nothing else. -/
theorem lookup_alterAscending {key k : Symbol} {next : Option α → α} {l : List (Symbol × α)}
    (h : l.Pairwise fun e f => e.1 < f.1) :
    (alterAscending key next l).lookup k =
      if k = key then some (next (l.lookup key)) else l.lookup k := by
  induction l with
  | nil => simp [alterAscending, lookup_cons_pair]
  | cons e rest ih =>
    obtain ⟨k', v⟩ := e
    obtain ⟨hk', hrest⟩ := List.pairwise_cons.mp h
    rw [alterAscending]
    split
    · rename_i hlt
      -- all keys from here on are larger, so the key is not there yet
      have habsent : List.lookup key ((k', v) :: rest) = none := by
        cases hl : List.lookup key ((k', v) :: rest) with
        | none => rfl
        | some w =>
          rcases List.mem_cons.mp ((lookup_eq_some_iff h).mp hl) with heq | hmem
          · cases heq
            exact absurd hlt (String.lt_irrefl _)
          · exact absurd (hk' _ hmem) (String.lt_asymm hlt)
      rw [habsent, lookup_cons_pair]
    · split
      · rename_i heq
        subst heq
        by_cases hkk : k = key <;> simp [hkk, lookup_cons_pair]
      · rename_i hne
        rw [lookup_cons_pair, ih hrest, lookup_cons_pair, lookup_cons_pair]
        by_cases hkk : k = key
        · subst hkk
          simp [hne]
        · simp [hkk]

/-- Altering a key changes what that key reads and nothing else. -/
theorem get?_alter (map : SymbolMap α) (key k : Symbol) (next : Option α → α) :
    (map.alter key next).get? k = if k = key then some (next (map.get? key)) else map.get? k :=
  lookup_alterAscending map.sorted

/-- Modifying a key changes what that key reads, if it reads anything, and nothing else. -/
theorem get?_modify (map : SymbolMap α) (key k : Symbol) (change : α → α) :
    (map.modify key change).get? k =
      if k = key then (map.get? k).map change else map.get? k := by
  show (map.entries.map _).lookup k = _
  unfold get?
  induction map.entries with
  | nil => simp
  | cons e rest ih =>
    obtain ⟨k', v⟩ := e
    rw [List.map_cons]
    by_cases hkey : k' = key
    · subst hkey
      rw [if_pos rfl, lookup_cons_pair, lookup_cons_pair, ih]
      split <;> simp
    · rw [if_neg hkey, lookup_cons_pair, lookup_cons_pair, ih]
      grind

/-- A map made of keys reads the value of each of them, and nothing elsewhere. -/
theorem get?_ofKeys (keys : SymbolSet) (value : Symbol → α) (k : Symbol) :
    (ofKeys keys value).get? k = if k ∈ keys then some (value k) else none := by
  split
  · rename_i hk
    exact get?_eq_some_iff.mpr (List.mem_map.mpr ⟨k, hk, rfl⟩)
  · rename_i hk
    cases hget : (ofKeys keys value).get? k with
    | none => rfl
    | some v =>
      obtain ⟨k', hmem, heq⟩ := List.mem_map.mp (get?_eq_some_iff.mp hget)
      cases heq
      exact absurd hmem hk

/-- A map made from a set of keys has just those keys. -/
@[simp] theorem keys_ofKeys (keys : SymbolSet) (value : Symbol → α) :
    (ofKeys keys value).keys = keys := by
  apply SymbolSet.ext_mem
  intro k
  rw [mem_keys, get?_ofKeys]
  split <;> simp_all

/-- Modifying a value keeps the keys. -/
@[simp] theorem keys_modify (map : SymbolMap α) (key : Symbol) (change : α → α) :
    (map.modify key change).keys = map.keys := by
  apply SymbolSet.ext_mem
  intro k
  rw [mem_keys, mem_keys, get?_modify]
  split <;> simp only [Option.map_eq_some_iff]
  exact ⟨fun ⟨_, v, hv, _⟩ => ⟨v, hv⟩, fun ⟨v, hv⟩ => ⟨change v, v, hv, rfl⟩⟩

/-- Maps that read alike at every key are equal. -/
theorem ext_get? {s t : SymbolMap α} (h : ∀ k, s.get? k = t.get? k) : s = t := by
  have hmem : ∀ e, e ∈ s.entries ↔ e ∈ t.entries := fun (k, v) => by
    rw [← get?_eq_some_iff, ← get?_eq_some_iff, h]
  have nodup : ∀ m : SymbolMap α, m.entries.Nodup := fun m =>
    List.nodup_iff_pairwise_ne.mpr <| m.sorted.imp fun {e f} hlt heq => by
      subst heq
      exact String.lt_irrefl e.1 hlt
  refine ext_entries (List.Perm.eq_of_pairwise (fun e f _ _ hef hfe => ?_) s.sorted t.sorted
    ((List.perm_ext_iff_of_nodup (nodup s) (nodup t)).mpr hmem))
  exact absurd hfe (String.lt_asymm hef)

end SymbolMap

end Lookahead
