import Mathlib.Data.List.Nodup
import Mathlib.Data.List.Basic
import Mathlib.Algebra.Order.BigOperators.Group.List
import Mathlib.Algebra.Order.Group.Int
import Mathlib.Algebra.Group.Pi.Basic
import Mathlib.Tactic.Abel

set_option autoImplicit false

/-!
# Insertion-ordered maps

A key keeps the place of its first insertion; a later insertion replaces its value there.
-/

structure OrderedMap (κ α : Type) where
  entries : List (κ × α)
  nodup : (entries.map Prod.fst).Nodup
  deriving DecidableEq

namespace OrderedMap

variable {κ α : Type}

def keys (m : OrderedMap κ α) : List κ := m.entries.map Prod.fst

def values (m : OrderedMap κ α) : List α := m.entries.map Prod.snd

def empty : OrderedMap κ α := ⟨[], List.nodup_nil⟩

instance : EmptyCollection (OrderedMap κ α) := ⟨empty⟩
instance : Inhabited (OrderedMap κ α) := ⟨empty⟩

@[ext] theorem ext {m n : OrderedMap κ α} (h : m.entries = n.entries) : m = n := by
  cases m; cases n; cases h; rfl

@[simp] theorem entries_empty : (∅ : OrderedMap κ α).entries = [] := rfl

variable [DecidableEq κ]

def lookup (k : κ) : List (κ × α) → Option α
  | [] => none
  | (key, value) :: rest => if key = k then some value else lookup k rest

def place (k : κ) (v : α) : List (κ × α) → List (κ × α)
  | [] => [(k, v)]
  | (key, value) :: rest => if key = k then (k, v) :: rest else (key, value) :: place k v rest

def get (m : OrderedMap κ α) (k : κ) : Option α := lookup k m.entries

def contains (m : OrderedMap κ α) (k : κ) : Bool := (m.get k).isSome

theorem mem_keys_place (k : κ) (v : α) (entries : List (κ × α)) (key : κ) :
    key ∈ (place k v entries).map Prod.fst ↔ key = k ∨ key ∈ entries.map Prod.fst := by
  induction entries with
  | nil => simp [place]
  | cons entry rest ih =>
    obtain ⟨head, value⟩ := entry
    by_cases same : head = k
    · subst same
      simp [place]
    · simp only [place, same, if_false, List.map_cons, List.mem_cons, ih]
      tauto

theorem nodup_place (k : κ) (v : α) (entries : List (κ × α))
    (nodup : (entries.map Prod.fst).Nodup) : ((place k v entries).map Prod.fst).Nodup := by
  induction entries with
  | nil => simp [place]
  | cons entry rest ih =>
    obtain ⟨head, value⟩ := entry
    simp only [List.map_cons, List.nodup_cons] at nodup
    by_cases same : head = k
    · subst same
      simp only [place, if_true, List.map_cons, List.nodup_cons]
      exact nodup
    · rw [place, if_neg same, List.map_cons, List.nodup_cons, mem_keys_place, not_or]
      exact ⟨⟨same, nodup.1⟩, ih nodup.2⟩

def insert (m : OrderedMap κ α) (k : κ) (v : α) : OrderedMap κ α :=
  ⟨place k v m.entries, nodup_place k v m.entries m.nodup⟩

def erase (m : OrderedMap κ α) (k : κ) : OrderedMap κ α where
  entries := m.entries.filter fun entry => entry.1 ≠ k
  nodup := m.nodup.sublist (List.filter_sublist.map Prod.fst)

def ofList (entries : List (κ × α)) : OrderedMap κ α :=
  entries.foldl (fun m entry => m.insert entry.1 entry.2) ∅

theorem lookup_place_self (k : κ) (v : α) (entries : List (κ × α)) :
    lookup k (place k v entries) = some v := by
  induction entries with
  | nil => simp [place, lookup]
  | cons entry rest ih =>
    by_cases same : entry.1 = k <;> simp [place, lookup, same, ih]

theorem lookup_place_ne (k key : κ) (v : α) (entries : List (κ × α)) (other : key ≠ k) :
    lookup key (place k v entries) = lookup key entries := by
  induction entries with
  | nil => simp [place, lookup, Ne.symm other]
  | cons entry rest ih =>
    by_cases same : entry.1 = k
    · simp [place, lookup, same, Ne.symm other]
    · simp [place, lookup, same, ih]

@[simp] theorem get_empty (k : κ) : (∅ : OrderedMap κ α).get k = none := rfl

@[simp] theorem get_insert_self (m : OrderedMap κ α) (k : κ) (v : α) :
    (m.insert k v).get k = some v :=
  lookup_place_self k v m.entries

@[simp] theorem get_insert_ne (m : OrderedMap κ α) {k key : κ} (v : α) (other : key ≠ k) :
    (m.insert k v).get key = m.get key :=
  lookup_place_ne k key v m.entries other

theorem get_insert (m : OrderedMap κ α) (k key : κ) (v : α) :
    (m.insert k v).get key = if key = k then some v else m.get key := by
  by_cases same : key = k
  · simp [same]
  · simp [same]

theorem get_insert_eq_some {m : OrderedMap κ α} {k key : κ} {v value : α} :
    (m.insert k v).get key = some value ↔ key = k ∧ v = value ∨ key ≠ k ∧ m.get key = some value := by
  by_cases same : key = k
  · simp [same]
  · simp [same]

-- What held of the entries holds after one is put in its place.
theorem forall_insert {m : OrderedMap κ α} {P : κ → α → Prop} {k : κ} {v : α} (here : P k v)
    (others : ∀ key value, key ≠ k → m.get key = some value → P key value) (key : κ) (value : α)
    (found : (m.insert k v).get key = some value) : P key value := by
  rcases get_insert_eq_some.mp found with ⟨rfl, rfl⟩ | ⟨other, before⟩
  · exact here
  · exact others key value other before

theorem get_insert_none {m : OrderedMap κ α} {k key : κ} {v old : α} (present : m.get k = some old) :
    (m.insert k v).get key = none ↔ m.get key = none := by
  by_cases same : key = k
  · simp [same, present]
  · simp [same]

theorem lookup_filter (k key : κ) (entries : List (κ × α)) :
    lookup key (entries.filter fun entry => entry.1 ≠ k) =
      if key = k then none else lookup key entries := by
  induction entries with
  | nil => simp [lookup]
  | cons entry rest ih =>
    by_cases removed : entry.1 = k
    · by_cases same : key = k
      · simp_all
      · have other : entry.1 ≠ key := fun h => same (h.symm.trans removed)
        simp_all [lookup]
    · by_cases same : entry.1 = key <;> simp_all [lookup]

theorem get_erase (m : OrderedMap κ α) (k key : κ) :
    (m.erase k).get key = if key = k then none else m.get key :=
  lookup_filter k key m.entries

theorem filter_place (k : κ) (v : α) (entries : List (κ × α)) :
    ((place k v entries).filter fun entry => entry.1 ≠ k) = entries.filter fun entry => entry.1 ≠ k := by
  induction entries with
  | nil => simp [place]
  | cons entry rest ih =>
    by_cases same : entry.1 = k
    · simp [place, same]
    · simpa [place, same] using ih

@[simp] theorem erase_insert (m : OrderedMap κ α) (k : κ) (v : α) : (m.insert k v).erase k = m.erase k :=
  ext (filter_place k v m.entries)

theorem lookup_eq_none (k : κ) (entries : List (κ × α)) :
    lookup k entries = none ↔ k ∉ entries.map Prod.fst := by
  induction entries with
  | nil => simp [lookup]
  | cons entry rest ih =>
    by_cases same : entry.1 = k
    · simp [lookup, same]
    · simp [lookup, same, Ne.symm same, ih]

theorem get_eq_none (m : OrderedMap κ α) (k : κ) : m.get k = none ↔ k ∉ m.keys :=
  lookup_eq_none k m.entries

theorem erase_absent {m : OrderedMap κ α} {k : κ} (absent : m.get k = none) : m.erase k = m := by
  refine ext (List.filter_eq_self.mpr fun entry member => ?_)
  rw [get_eq_none] at absent
  exact decide_eq_true fun same => absent (same ▸ List.mem_map_of_mem member)

theorem lookup_eq_some (k : κ) (v : α) (entries : List (κ × α))
    (nodup : (entries.map Prod.fst).Nodup) :
    lookup k entries = some v ↔ (k, v) ∈ entries := by
  induction entries with
  | nil => simp [lookup]
  | cons entry rest ih =>
    obtain ⟨head, value⟩ := entry
    simp only [List.map_cons, List.nodup_cons] at nodup
    by_cases same : head = k
    · subst same
      have absent : (head, v) ∉ rest := fun member =>
        nodup.1 (List.mem_map.mpr ⟨_, member, rfl⟩)
      simp [lookup, absent, eq_comm]
    · simp [lookup, same, Ne.symm same, ih nodup.2]

theorem get_eq_some (m : OrderedMap κ α) (k : κ) (v : α) :
    m.get k = some v ↔ (k, v) ∈ m.entries :=
  lookup_eq_some k v m.entries m.nodup

theorem place_absent (k : κ) (v : α) (entries : List (κ × α))
    (absent : k ∉ entries.map Prod.fst) : place k v entries = entries ++ [(k, v)] := by
  induction entries with
  | nil => rfl
  | cons entry rest ih =>
    simp only [List.map_cons, List.mem_cons, not_or] at absent
    simp [place, Ne.symm absent.1, ih absent.2]

theorem entries_insert_absent (m : OrderedMap κ α) (k : κ) (v : α) (absent : k ∉ m.keys) :
    (m.insert k v).entries = m.entries ++ [(k, v)] :=
  place_absent k v m.entries absent

theorem keys_place_present (k : κ) (v : α) (entries : List (κ × α))
    (present : k ∈ entries.map Prod.fst) :
    (place k v entries).map Prod.fst = entries.map Prod.fst := by
  induction entries with
  | nil => simp at present
  | cons entry rest ih =>
    by_cases same : entry.1 = k
    · simp [place, same]
    · have later : k ∈ rest.map Prod.fst := by
        simpa [Ne.symm same] using present
      simp [place, same, ih later]

theorem keys_insert (m : OrderedMap κ α) (k : κ) (v : α) :
    (m.insert k v).keys = if k ∈ m.keys then m.keys else m.keys ++ [k] := by
  split_ifs with present
  · exact keys_place_present k v m.entries present
  · rw [keys, entries_insert_absent m k v present, List.map_append]
    rfl

theorem mem_keys_insert (m : OrderedMap κ α) (k : κ) (v : α) (key : κ) :
    key ∈ (m.insert k v).keys ↔ key = k ∨ key ∈ m.keys :=
  mem_keys_place k v m.entries key

theorem mem_keys_insertAll (entries : List (κ × α)) (m : OrderedMap κ α) (key : κ) :
    key ∈ (entries.foldl (fun m entry => m.insert entry.1 entry.2) m).keys ↔
      key ∈ m.keys ∨ key ∈ entries.map Prod.fst := by
  induction entries generalizing m with
  | nil => simp
  | cons entry rest ih =>
    rw [List.foldl_cons, ih, mem_keys_insert, List.map_cons, List.mem_cons]
    tauto

theorem eq_of_lookup {entries others : List (κ × α)} (nodup : (entries.map Prod.fst).Nodup)
    (keys : entries.map Prod.fst = others.map Prod.fst)
    (same : ∀ k, lookup k entries = lookup k others) : entries = others := by
  induction entries generalizing others with
  | nil => exact (List.map_eq_nil_iff.mp keys.symm).symm
  | cons entry rest ih =>
    obtain ⟨head, value⟩ := entry
    cases others with
    | nil => simp at keys
    | cons other more =>
      obtain ⟨head', value'⟩ := other
      obtain ⟨rfl, later⟩ : head = head' ∧ rest.map Prod.fst = more.map Prod.fst := by
        simpa using keys
      simp only [List.map_cons, List.nodup_cons] at nodup
      have first : value = value' := by simpa [lookup] using same head
      rw [first, ih nodup.2 later ?_]
      intro k
      by_cases here : head = k
      · subst here
        rw [(lookup_eq_none head rest).mpr nodup.1,
          (lookup_eq_none head more).mpr (later ▸ nodup.1)]
      · simpa [lookup, here] using same k

-- A map is determined by the order of its keys and by what is found under each.
theorem eq_of_get {m n : OrderedMap κ α} (keys : m.keys = n.keys) (same : ∀ k, m.get k = n.get k) :
    m = n :=
  ext (eq_of_lookup m.nodup keys same)

def Each (m : OrderedMap κ α) (P : κ → α → Prop) : Prop := ∀ k v, m.get k = some v → P k v

section

variable {P Q : κ → α → Prop}

theorem each_empty : (∅ : OrderedMap κ α).Each P := by
  intro k v found
  cases found

theorem Each.mono {m : OrderedMap κ α} (each : m.Each P) (weaker : ∀ k v, P k v → Q k v) :
    m.Each Q :=
  fun k v found => weaker k v (each k v found)

theorem each_insert {m : OrderedMap κ α} {k : κ} {v : α} (here : P k v)
    (others : m.Each fun key value => key = k ∨ P key value) : (m.insert k v).Each P := by
  intro key value found
  rw [get_insert] at found
  split_ifs at found with same
  · rw [same, ← Option.some.inj found]
    exact here
  · exact (others key value found).resolve_left same

theorem Each.insert {m : OrderedMap κ α} (each : m.Each P) {k : κ} {v : α} (here : P k v) :
    (m.insert k v).Each P :=
  each_insert here (each.mono fun _ _ => Or.inr)

theorem Each.insertAll {m : OrderedMap κ α} (entries : List (κ × α))
    (each : m.Each fun key value => key ∈ entries.map Prod.fst ∨ P key value)
    (all : ∀ entry ∈ entries, P entry.1 entry.2) :
    (entries.foldl (fun m entry => m.insert entry.1 entry.2) m).Each P := by
  induction entries generalizing m with
  | nil => exact each.mono fun _ _ known => known.resolve_left (by simp)
  | cons entry rest ih =>
    simp only [List.mem_cons, forall_eq_or_imp] at all
    refine ih ?_ all.2
    refine each_insert (Or.inr all.1) ?_
    exact each.mono fun key _ known => by simpa [or_assoc] using known

theorem each_ofList {l : List (κ × α)} (all : ∀ entry ∈ l, P entry.1 entry.2) :
    (ofList l).Each P :=
  Each.insertAll l each_empty all

theorem get_ofList_eq_none {l : List (κ × α)} {k : κ} (absent : ∀ entry ∈ l, entry.1 ≠ k) :
    (ofList l).get k = none := by
  have others : (ofList l).Each fun key _ => key ≠ k := each_ofList absent
  cases found : (ofList l).get k with
  | none => rfl
  | some v => exact absurd rfl (others k v found)

end

def modify (m : OrderedMap κ α) (k : κ) (f : α → α) : OrderedMap κ α :=
  match m.get k with
  | some v => m.insert k (f v)
  | none => m

theorem modify_some {m : OrderedMap κ α} {k : κ} {v : α} (present : m.get k = some v) (f : α → α) :
    m.modify k f = m.insert k (f v) := by
  rw [modify, present]

theorem modify_none {m : OrderedMap κ α} {k : κ} (absent : m.get k = none) (f : α → α) :
    m.modify k f = m := by
  rw [modify, absent]

theorem get_modify (m : OrderedMap κ α) (k key : κ) (f : α → α) :
    (m.modify k f).get key = if key = k then (m.get k).map f else m.get key := by
  unfold modify
  cases found : m.get k with
  | none =>
    by_cases same : key = k
    · simp [same, found]
    · simp [same]
  | some v => simp [get_insert]

section

variable {P Q : κ → α → Prop}

theorem Each.modify {m : OrderedMap κ α} (each : m.Each P) {k : κ} {f : α → α}
    (here : ∀ v, m.get k = some v → P k v → P k (f v)) : (m.modify k f).Each P := by
  intro key value found
  rw [get_modify] at found
  split_ifs at found with same
  · obtain ⟨v, present, rfl⟩ := Option.map_eq_some_iff.mp found
    exact same ▸ here v present (each k v present)
  · exact each key value found

theorem Each.erase {m : OrderedMap κ α} (each : m.Each P) (k : κ) : (m.erase k).Each P := by
  intro key value found
  rw [get_erase] at found
  split_ifs at found
  exact each key value found

end

@[simp] theorem get_modify_self (m : OrderedMap κ α) (k : κ) (f : α → α) :
    (m.modify k f).get k = (m.get k).map f := by
  rw [get_modify, if_pos rfl]

def mapValues {β : Type} (m : OrderedMap κ α) (f : κ → α → β) : OrderedMap κ β where
  entries := m.entries.map fun entry => (entry.1, f entry.1 entry.2)
  nodup := by simpa [Function.comp_def] using m.nodup

omit [DecidableEq κ] in
@[simp] theorem keys_mapValues {β : Type} (m : OrderedMap κ α) (f : κ → α → β) :
    (m.mapValues f).keys = m.keys := by
  simp [keys, mapValues, Function.comp_def]

@[simp] theorem get_mapValues {β : Type} (m : OrderedMap κ α) (f : κ → α → β) (k : κ) :
    (m.mapValues f).get k = (m.get k).map (f k) := by
  have list (entries : List (κ × α)) :
      lookup k (entries.map fun entry => (entry.1, f entry.1 entry.2)) =
        (lookup k entries).map (f k) := by
    induction entries with
    | nil => rfl
    | cons entry rest ih =>
      by_cases same : entry.1 = k
      · simp [lookup, same]
      · simp [lookup, same, ih]
  exact list m.entries

@[simp] theorem keys_modify (m : OrderedMap κ α) (k : κ) (f : α → α) : (m.modify k f).keys = m.keys := by
  unfold modify
  split
  · rename_i v present
    rw [keys_insert, if_pos]
    by_contra absent
    rw [(get_eq_none m k).mpr absent] at present
    cases present
  · rfl

@[simp] theorem get_modify_eq_none (m : OrderedMap κ α) (k key : κ) (f : α → α) :
    (m.modify k f).get key = none ↔ m.get key = none := by
  rw [get_modify]
  split_ifs with same
  · rw [same, Option.map_eq_none_iff]
  · rfl

section

variable {β : Type} [AddCommGroup β]

def sum (m : OrderedMap κ α) (weight : κ → α → β) : β :=
  (m.entries.map fun entry => weight entry.1 entry.2).sum

variable {weight : κ → α → β}

omit [DecidableEq κ] in
@[simp] theorem sum_empty : (∅ : OrderedMap κ α).sum weight = 0 := rfl

omit [DecidableEq κ] in
@[simp] theorem sum_zero (m : OrderedMap κ α) : (m.sum fun _ _ => (0 : β)) = 0 := by
  unfold sum
  induction m.entries with
  | nil => rfl
  | cons entry rest ih => rw [List.map_cons, List.sum_cons, ih, add_zero]

theorem sum_insert_absent {m : OrderedMap κ α} {k : κ} (absent : m.get k = none) (v : α) :
    (m.insert k v).sum weight = m.sum weight + weight k v := by
  rw [get_eq_none] at absent
  simp [sum, entries_insert_absent m k v absent]

theorem sum_insert {m : OrderedMap κ α} {k : κ} {old : α} (present : m.get k = some old) (v : α) :
    (m.insert k v).sum weight = m.sum weight - weight k old + weight k v := by
  have list (entries : List (κ × α)) (found : lookup k entries = some old) :
      ((place k v entries).map fun entry => weight entry.1 entry.2).sum =
        (entries.map fun entry => weight entry.1 entry.2).sum - weight k old + weight k v := by
    induction entries with
    | nil => simp [lookup] at found
    | cons entry rest ih =>
      obtain ⟨key, value⟩ := entry
      by_cases same : key = k
      · subst same
        simp only [lookup, if_true, Option.some.injEq] at found
        simp only [place, if_true, List.map_cons, List.sum_cons, found]
        abel
      · have later := ih (by simpa [lookup, same] using found)
        simp only [place, same, if_false, List.map_cons, List.sum_cons, later]
        abel
  exact list m.entries present

theorem sum_modify {m : OrderedMap κ α} {k : κ} {old : α} (present : m.get k = some old)
    (f : α → α) :
    (m.modify k f).sum weight = m.sum weight - weight k old + weight k (f old) := by
  rw [modify, present]
  exact sum_insert present (f old)

theorem sum_erase {m : OrderedMap κ α} {k : κ} {old : α} (present : m.get k = some old) :
    (m.erase k).sum weight = m.sum weight - weight k old := by
  have list (entries : List (κ × α)) (nodup : (entries.map Prod.fst).Nodup)
      (found : lookup k entries = some old) :
      ((entries.filter fun entry => entry.1 ≠ k).map fun entry => weight entry.1 entry.2).sum =
        (entries.map fun entry => weight entry.1 entry.2).sum - weight k old := by
    induction entries with
    | nil => simp [lookup] at found
    | cons entry rest ih =>
      obtain ⟨key, value⟩ := entry
      simp only [List.map_cons, List.nodup_cons] at nodup
      by_cases same : key = k
      · subst same
        have others : (rest.filter fun entry => entry.1 ≠ key) = rest := by
          rw [List.filter_eq_self]
          intro other member
          have different : other.1 ≠ key := fun h =>
            nodup.1 (List.mem_map.mpr ⟨other, member, h⟩)
          simp [different]
        simp only [lookup, if_true, Option.some.injEq] at found
        rw [List.filter_cons_of_neg (by simp), others]
        simp [found]
      · have later := ih nodup.2 (by simpa [lookup, same] using found)
        rw [List.filter_cons_of_pos (by simp [same])]
        simp only [List.map_cons, List.sum_cons, later]
        abel
  exact list m.entries m.nodup present

omit [DecidableEq κ] in
theorem sum_mapValues {γ : Type} (m : OrderedMap κ γ) (f : κ → γ → α) :
    (m.mapValues f).sum weight = m.sum fun k v => weight k (f k v) := by
  simp [sum, mapValues, List.map_map, Function.comp_def]

theorem sum_single (m : OrderedMap κ α) (k : κ) (others : ∀ key v, key ≠ k → weight key v = 0) :
    m.sum weight = (m.get k).elim 0 (weight k) := by
  have list (entries : List (κ × α)) (nodup : (entries.map Prod.fst).Nodup) :
      (entries.map fun entry => weight entry.1 entry.2).sum =
        (lookup k entries).elim 0 (weight k) := by
    induction entries with
    | nil => rfl
    | cons entry rest ih =>
      obtain ⟨key, value⟩ := entry
      simp only [List.map_cons, List.nodup_cons] at nodup
      rw [List.map_cons, List.sum_cons, ih nodup.2]
      by_cases same : key = k
      · subst same
        simp [lookup, (lookup_eq_none key rest).mpr nodup.1]
      · simp [lookup, same, others key value same]
  exact list m.entries m.nodup

omit [DecidableEq κ] in
theorem sum_neg (m : OrderedMap κ α) : (m.sum fun k v => -weight k v) = -m.sum weight := by
  unfold sum
  induction m.entries with
  | nil => simp
  | cons entry rest ih =>
    simp only [List.map_cons, List.sum_cons, ih]
    abel

omit [DecidableEq κ] in
theorem sum_add (m : OrderedMap κ α) (other : κ → α → β) :
    (m.sum fun k v => weight k v + other k v) = m.sum weight + m.sum other := by
  unfold sum
  induction m.entries with
  | nil => simp
  | cons entry rest ih =>
    simp only [List.map_cons, List.sum_cons, ih]
    abel

theorem sum_eq_zero {m : OrderedMap κ α} (none : ∀ k v, m.get k = some v → weight k v = 0) :
    m.sum weight = 0 := by
  apply List.sum_eq_zero
  intro w member
  obtain ⟨entry, inside, rfl⟩ := List.mem_map.mp member
  exact none entry.1 entry.2 ((get_eq_some m entry.1 entry.2).mpr inside)

omit [DecidableEq κ] in
theorem sum_apply {ι : Type} (m : OrderedMap κ α) (weight : κ → α → ι → β) (i : ι) :
    m.sum weight i = m.sum fun k v => weight k v i := by
  unfold sum
  induction m.entries with
  | nil => rfl
  | cons entry rest ih => simp only [List.map_cons, List.sum_cons, Pi.add_apply, ih]

end

section

variable {weight : κ → α → Int}

theorem sum_nonpos {m : OrderedMap κ α} (nonpos : ∀ k v, m.get k = some v → weight k v ≤ 0) :
    m.sum weight ≤ 0 := by
  have nonneg : 0 ≤ m.sum fun k v => -weight k v := by
    apply List.sum_nonneg
    intro w member
    obtain ⟨entry, inside, rfl⟩ := List.mem_map.mp member
    have known := nonpos entry.1 entry.2 ((get_eq_some m entry.1 entry.2).mpr inside)
    exact Int.neg_nonneg.mpr known
  rw [sum_neg] at nonneg
  omega

theorem sum_le {m : OrderedMap κ α} {k : κ} {v : α} (present : m.get k = some v)
    (nonpos : ∀ k v, m.get k = some v → weight k v ≤ 0) : m.sum weight ≤ weight k v := by
  have others : (m.erase k).sum weight ≤ 0 := by
    apply sum_nonpos
    intro key value found
    rw [get_erase] at found
    split_ifs at found
    exact nonpos key value found
  rw [sum_erase present] at others
  omega

theorem sum_nonneg {m : OrderedMap κ α} (nonneg : ∀ k v, m.get k = some v → 0 ≤ weight k v) :
    0 ≤ m.sum weight := by
  have below : (m.sum fun k v => -weight k v) ≤ 0 :=
    sum_nonpos fun k v found => Int.neg_nonpos_of_nonneg (nonneg k v found)
  rw [sum_neg] at below
  omega

theorem sum_mono {other : κ → α → Int} {m : OrderedMap κ α}
    (below : ∀ k v, m.get k = some v → weight k v ≤ other k v) : m.sum weight ≤ m.sum other := by
  have rest : 0 ≤ m.sum fun k v => other k v + -weight k v :=
    sum_nonneg fun k v found => by
      have here := below k v found
      omega
  rw [sum_add, sum_neg] at rest
  omega

theorem le_sum {m : OrderedMap κ α} {k : κ} {v : α} (present : m.get k = some v)
    (nonneg : ∀ k v, m.get k = some v → 0 ≤ weight k v) : weight k v ≤ m.sum weight := by
  have below : (m.sum fun k v => -weight k v) ≤ -weight k v :=
    sum_le present fun k v found => Int.neg_nonpos_of_nonneg (nonneg k v found)
  rw [sum_neg] at below
  omega

-- A value may be there already.
theorem sum_insert_le {m : OrderedMap κ α} (k : κ) (v : α) (nonneg : ∀ v, 0 ≤ weight k v) :
    (m.insert k v).sum weight ≤ m.sum weight + weight k v := by
  cases present : m.get k with
  | none => exact (sum_insert_absent present v).le
  | some old =>
    have before := nonneg old
    rw [sum_insert present]
    omega

end

def count (m : OrderedMap κ α) (P : α → Bool) : Nat := m.entries.countP fun entry => P entry.2

omit [DecidableEq κ] in
@[simp] theorem count_empty (P : α → Bool) : (∅ : OrderedMap κ α).count P = 0 := rfl

omit [DecidableEq κ] in
theorem sum_count (m : OrderedMap κ α) (P : α → Bool) :
    (m.sum fun _ v => if P v then (1 : Int) else 0) = m.count P := by
  unfold sum count
  induction m.entries with
  | nil => rfl
  | cons entry rest ih =>
    rw [List.map_cons, List.sum_cons, ih, List.countP_cons]
    beta_reduce
    split_ifs <;> omega

theorem eq_empty {m : OrderedMap κ α} (none : ∀ k, m.get k = none) : m = ∅ := by
  apply ext
  rw [entries_empty, List.eq_nil_iff_forall_not_mem]
  rintro ⟨k, v⟩ member
  rw [← get_eq_some, none] at member
  cases member

theorem count_pos {m : OrderedMap κ α} {P : α → Bool} {k : κ} {v : α} (present : m.get k = some v)
    (holds : P v = true) : 0 < m.count P :=
  List.countP_pos_iff.mpr ⟨(k, v), (get_eq_some m k v).mp present, holds⟩

theorem count_le_one {m : OrderedMap κ α} {P : α → Bool} (few : m.count P ≤ 1) {k key : κ} {v w : α}
    (present : m.get k = some v) (holds : P v = true) (other : m.get key = some w)
    (also : P w = true) : key = k := by
  by_contra different
  have rest : ((m.erase k).sum fun _ v => if P v then (1 : Int) else 0) =
      (m.sum fun _ v => if P v then (1 : Int) else 0) - if P v then 1 else 0 := sum_erase present
  rw [sum_count, sum_count, if_pos holds] at rest
  have some : 0 < (m.erase k).count P :=
    count_pos (by rw [get_erase, if_neg different]; exact other) also
  omega

theorem exists_of_count {m : OrderedMap κ α} {P : α → Bool} (some : 0 < m.count P) :
    ∃ k v, m.get k = .some v ∧ P v = true := by
  obtain ⟨⟨k, v⟩, member, holds⟩ := List.countP_pos_iff.mp some
  exact ⟨k, v, (get_eq_some m k v).mpr member, holds⟩

theorem exists_other {m : OrderedMap κ α} {P : α → Bool} (k : κ) (more : 1 < m.count P) :
    ∃ key v, key ≠ k ∧ m.get key = some v ∧ P v = true := by
  cases present : m.get k with
  | none =>
    obtain ⟨key, v, there, holds⟩ := exists_of_count (m := m) (P := P) (by omega)
    refine ⟨key, v, ?_, there, holds⟩
    rintro rfl
    simp [present] at there
  | some v =>
    have rest : ((m.erase k).sum fun _ v => if P v then (1 : Int) else 0) =
        (m.sum fun _ v => if P v then (1 : Int) else 0) - if P v then 1 else 0 := sum_erase present
    rw [sum_count, sum_count] at rest
    obtain ⟨key, w, there, holds⟩ := exists_of_count (m := m.erase k) (P := P) (by
      split_ifs at rest <;> omega)
    rw [get_erase] at there
    split_ifs at there with same
    exact ⟨key, w, same, there, holds⟩

end OrderedMap
