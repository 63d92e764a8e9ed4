import HttpServer.RequestHeaders
import Mathlib.Data.List.Induction

set_option autoImplicit false

/-!
# Field lines and the map they are collected in

`addFields` is the accumulation of `Connection::headers` over the field lines alone. The
abstract side says what a list of field lines stands for: for each key the values that
arrived under it, joined in that order.
-/

namespace HttpServer

open Unicode Text RequestHeaders

structure Field where
  name : Str
  value : Str
  deriving DecidableEq

def Field.key (f : Field) : Str := toLower f.name

def Field.text (f : Field) : Str := f.name ++ unit ':' :: f.value

def addFields (headers : Headers) : List Field → Option Headers
  | [] => some headers
  | f :: rest => (add headers f.key f.value).bind (addFields · rest)

def valuesOf (key : Str) (fields : List Field) : List Str :=
  (fields.filter (·.key = key)).map fun f => trim f.value

def joined (key : Str) : List Str → Option Str
  | [] => none
  | v :: rest => some (rest.foldl (fun all w => all ++ separator key ++ w) v)

structure Collected (fields : List Field) (headers : Headers) : Prop where
  get : ∀ key, headers.get key = joined key (valuesOf key fields)
  keys : headers.keys = (fields.map Field.key).eraseDups

structure Field.Valid (f : Field) : Prop where
  name : token f.name = true
  value : anyChar f.value controlChar = false

def lengthKey : Str := str "content-length"

def codingKey : Str := str "transfer-encoding"

structure Unambiguous (fields : List Field) : Prop where
  valid : ∀ f ∈ fields, f.Valid
  single : ∀ key, single key = true → (valuesOf key fields).length ≤ 1
  framing : valuesOf lengthKey fields = [] ∨ valuesOf codingKey fields = []
  digits : ∀ value ∈ valuesOf lengthKey fields, value ≠ [] ∧ anyChar value nonDigit = false

theorem tokenChar_range {n : Nat} (h : tokenChar n = true) :
    0x20 < n ∧ n < 0x7F ∧ n ≠ 0x3A ∧ n ≠ 0x2C ∧ n ≠ 0x3B := by
  have symbols : (str "!#$%&'*+-.^_`|~").map UInt16.toNat =
      [33, 35, 36, 37, 38, 39, 42, 43, 45, 46, 94, 95, 96, 124, 126] := by decide
  simp only [tokenChar, symbols, Bool.or_eq_true, Bool.and_eq_true, decide_eq_true_eq,
    List.contains_iff_mem, List.mem_cons, List.not_mem_nil, or_false] at h
  omega

theorem token_iff (text : Str) :
    token text = true ↔ text ≠ [] ∧ ∀ u ∈ text, tokenChar u.toNat = true := by
  have high : ∀ n, 0xD800 ≤ n → tokenChar n = false := by
    intro n hn
    by_contra h
    have := tokenChar_range (Bool.not_eq_false _ ▸ h)
    omega
  rw [token, allChars_eq text tokenChar false high]
  simp

theorem tokenChar_lower (u : UInt16) : tokenChar (lowerUnit u).toNat = tokenChar u.toNat := by
  rw [lowerUnit_toNat]
  split_ifs with upper
  · have lower : 0x61 ≤ u.toNat + 0x20 ∧ u.toNat + 0x20 ≤ 0x7A := by omega
    simp [tokenChar, upper, lower]
  · rfl

@[simp] theorem token_toLower (s : Str) : token (toLower s) = token s := by
  rw [Bool.eq_iff_iff, token_iff, token_iff]
  simp [toLower, tokenChar_lower]

@[simp] theorem token_key (f : Field) : token f.key = token f.name := token_toLower f.name

theorem add_eq_some {headers after : Headers} {name raw : Str} :
    add headers name raw = some after ↔
      token name = true ∧ anyChar raw controlChar = false ∧
        ¬(headers.contains (toLower name) = true ∧ single (toLower name) = true) ∧
        ¬(toLower name = lengthKey ∧ headers.contains codingKey = true) ∧
        ¬(toLower name = codingKey ∧ headers.contains lengthKey = true) ∧
        (toLower name = lengthKey → trim raw ≠ [] ∧ anyChar (trim raw) nonDigit = false) ∧
        headers.insert (toLower name) (combine headers (toLower name) (trim raw)) = after := by
  unfold add
  simp only [Bool.not_eq_true', Bool.and_eq_true, Bool.or_eq_true, beq_iff_eq,
    List.isEmpty_iff, ← lengthKey.eq_def, ← codingKey.eq_def]
  split_ifs with name value once framing digits
  · simp [name]
  · simp [value]
  · simp [once]
  · rcases framing with length | coding
    · simp [length]
    · simp [coding]
  · rcases digits with ⟨isLength, empty | wrong⟩
    · simp [isLength, empty]
    · simp [isLength, wrong]
  · grind

theorem joined_append (key : Str) (values : List Str) (value : Str) :
    joined key (values ++ [value]) =
      some (match joined key values with
        | some old => old ++ separator key ++ value
        | none => value) := by
  cases values with
  | nil => rfl
  | cons first rest => simp [joined, List.foldl_append]

theorem valuesOf_append (key : Str) (fields : List Field) (f : Field) :
    valuesOf key (fields ++ [f]) =
      valuesOf key fields ++ if f.key = key then [trim f.value] else [] := by
  by_cases same : f.key = key <;> simp [valuesOf, List.filter_append, same]

theorem valuesOf_eq_nil {key : Str} {fields : List Field} :
    valuesOf key fields = [] ↔ ∀ f ∈ fields, f.key ≠ key := by
  simp [valuesOf, List.filter_eq_nil_iff]

theorem valuesOf_of_nodup {fields : List Field} (nodup : (fields.map Field.key).Nodup) {f : Field}
    (member : f ∈ fields) : valuesOf f.key fields = [trim f.value] := by
  induction fields with
  | nil => simp at member
  | cons g rest ih =>
    rw [List.map_cons, List.nodup_cons] at nodup
    obtain ⟨fresh, nodup⟩ := nodup
    rcases List.mem_cons.mp member with rfl | later
    · have none : valuesOf f.key rest = [] := valuesOf_eq_nil.mpr fun h inside same =>
        fresh (List.mem_map.mpr ⟨h, inside, same⟩)
      have first : valuesOf f.key (f :: rest) = trim f.value :: valuesOf f.key rest := by
        simp [valuesOf]
      rw [first, none]
    · have other : g.key ≠ f.key := fun same =>
        fresh (List.mem_map.mpr ⟨f, later, same.symm⟩)
      rw [← ih nodup later]
      simp [valuesOf, other]

theorem valuesOf_length {fields : List Field} (nodup : (fields.map Field.key).Nodup) (key : Str) :
    (valuesOf key fields).length ≤ 1 := by
  by_cases none : valuesOf key fields = []
  · simp [none]
  · have some : ∃ f ∈ fields, f.key = key := by
      by_contra absent
      exact none (valuesOf_eq_nil.mpr fun f member same => absent ⟨f, member, same⟩)
    obtain ⟨f, member, rfl⟩ := some
    rw [valuesOf_of_nodup nodup member]
    simp

theorem Collected.contains {fields : List Field} {headers : Headers}
    (collected : Collected fields headers) (key : Str) :
    headers.contains key = true ↔ valuesOf key fields ≠ [] := by
  rw [OrderedMap.contains, collected.get]
  cases valuesOf key fields <;> simp [joined]

theorem Collected.insert {fields : List Field} {headers : Headers}
    (collected : Collected fields headers) (f : Field) :
    Collected (fields ++ [f])
      (headers.insert f.key (combine headers f.key (trim f.value))) where
  get key := by
    rw [OrderedMap.get_insert, valuesOf_append]
    by_cases same : key = f.key
    · subst same
      rw [if_pos rfl, if_pos rfl, joined_append]
      cases found : joined f.key (valuesOf f.key fields) <;> simp [combine, collected.get, found]
    · simp [same, Ne.symm same, collected.get]
  keys := by
    rw [OrderedMap.keys_insert, List.map_append, List.map_singleton, List.eraseDups_append,
      collected.keys]
    by_cases old : f.key ∈ fields.map Field.key
    · have erased : [f.key].removeAll (fields.map Field.key) = [] := by
        simpa [List.removeAll] using old
      rw [erased, if_pos (List.mem_eraseDups.mpr old)]
      simp
    · have kept : [f.key].removeAll (fields.map Field.key) = [f.key] := by
        simpa [List.removeAll] using old
      rw [kept, if_neg (fun h => old (List.mem_eraseDups.mp h))]
      rfl

theorem collected_nil : Collected [] (∅ : Headers) :=
  ⟨fun _ => rfl, rfl⟩

theorem unambiguous_nil : Unambiguous [] where
  valid := by simp
  single := by simp [valuesOf]
  framing := Or.inl rfl
  digits := by simp [valuesOf]

theorem lengthKey_ne_codingKey : lengthKey ≠ codingKey := by decide

theorem Unambiguous.add_iff {fields : List Field} {headers after : Headers}
    (unambiguous : Unambiguous fields) (collected : Collected fields headers) (f : Field) :
    add headers f.key f.value = some after ↔
      Unambiguous (fields ++ [f]) ∧
        headers.insert f.key (combine headers f.key (trim f.value)) = after := by
  have lower : toLower f.key = f.key := toLower_idem f.name
  have absent (key : Str) : headers.contains key = true ↔ valuesOf key fields ≠ [] :=
    collected.contains key
  rw [add_eq_some, lower, token_key]
  simp only [absent]
  constructor
  · rintro ⟨name, value, once, noCoding, noLength, digits, same⟩
    refine ⟨⟨?_, ?_, ?_, ?_⟩, same⟩
    · intro g member
      rcases List.mem_append.mp member with old | new
      · exact unambiguous.valid g old
      · rw [List.mem_singleton.mp new]
        exact ⟨name, value⟩
    · intro key isSingle
      rw [valuesOf_append]
      by_cases here : f.key = key
      · subst here
        have none : valuesOf f.key fields = [] := by
          by_contra present
          exact once ⟨present, isSingle⟩
        simp [none]
      · simpa [here] using unambiguous.single key isSingle
    · rw [valuesOf_append, valuesOf_append]
      have := unambiguous.framing
      have := lengthKey_ne_codingKey
      by_cases isLength : f.key = lengthKey
      · simp_all
      · by_cases isCoding : f.key = codingKey <;> simp_all
    · intro v member
      rw [valuesOf_append] at member
      rcases List.mem_append.mp member with old | new
      · exact unambiguous.digits v old
      · split_ifs at new with isLength
        · rw [List.mem_singleton.mp new]
          exact digits isLength
        · simp at new
  · rintro ⟨after, same⟩
    have valid := after.valid f (by simp)
    refine ⟨valid.name, valid.value, ?_, ?_, ?_, ?_, same⟩
    · rintro ⟨present, isSingle⟩
      have once := after.single f.key isSingle
      rw [valuesOf_append, if_pos rfl, List.length_append, List.length_singleton] at once
      have := List.length_pos_iff.mpr present
      omega
    · rintro ⟨isLength, present⟩
      rcases after.framing with none | none <;> simp_all [valuesOf_append]
    · rintro ⟨isCoding, present⟩
      rcases after.framing with none | none <;> simp_all [valuesOf_append]
    · intro isLength
      exact after.digits (trim f.value) (by simp [valuesOf_append, isLength])

theorem Unambiguous.one {fields : List Field} (unambiguous : Unambiguous fields) (key : Str)
    (isSingle : RequestHeaders.single key = true) :
    valuesOf key fields = [] ∨ ∃ value, valuesOf key fields = [value] := by
  have once := unambiguous.single key isSingle
  rcases found : valuesOf key fields with _ | ⟨value, _ | ⟨next, rest⟩⟩
  · exact Or.inl rfl
  · exact Or.inr ⟨value, rfl⟩
  · simp [found] at once

theorem Unambiguous.not_both {fields : List Field} {headers : Headers}
    (unambiguous : Unambiguous fields) (collected : Collected fields headers) :
    (headers.contains codingKey && headers.contains lengthKey) = false := by
  rw [Bool.and_eq_false_iff, ← Bool.not_eq_true, ← Bool.not_eq_true, collected.contains,
    collected.contains, not_not, not_not]
  exact unambiguous.framing.symm

theorem addFields_append (headers : Headers) (fields more : List Field) :
    addFields headers (fields ++ more) = (addFields headers fields).bind (addFields · more) := by
  induction fields generalizing headers with
  | nil => rfl
  | cons f rest ih =>
    simp only [List.cons_append, addFields]
    cases add headers f.key f.value with
    | none => rfl
    | some next => exact ih next

theorem Unambiguous.of_append {fields : List Field} {f : Field}
    (h : Unambiguous (fields ++ [f])) : Unambiguous fields where
  valid g member := h.valid g (by simp [member])
  single key isSingle := by
    have once := h.single key isSingle
    rw [valuesOf_append, List.length_append] at once
    omega
  framing := by
    have := h.framing
    simp only [valuesOf_append, List.append_eq_nil_iff] at this
    exact this.imp And.left And.left
  digits v member := h.digits v (by simp [valuesOf_append, member])

theorem addFields_ok {fields : List Field} {headers : Headers}
    (run : addFields ∅ fields = some headers) :
    Unambiguous fields ∧ Collected fields headers := by
  induction fields using List.reverseRecOn generalizing headers with
  | nil =>
    cases run
    exact ⟨unambiguous_nil, collected_nil⟩
  | append_singleton fields f ih =>
    rw [addFields_append, Option.bind_eq_some_iff] at run
    obtain ⟨before, earlier, last⟩ := run
    obtain ⟨unambiguous, collected⟩ := ih earlier
    obtain ⟨all, rfl⟩ := (unambiguous.add_iff collected f).mp (by simpa [addFields] using last)
    exact ⟨all, collected.insert f⟩

theorem addFields_run {fields : List Field} (unambiguous : Unambiguous fields) :
    ∃ headers, addFields ∅ fields = some headers := by
  induction fields using List.reverseRecOn with
  | nil => exact ⟨∅, rfl⟩
  | append_singleton fields f ih =>
    obtain ⟨before, earlier⟩ := ih unambiguous.of_append
    obtain ⟨earlierOk, collected⟩ := addFields_ok earlier
    have last := (earlierOk.add_iff collected f).mpr ⟨unambiguous, rfl⟩
    exact ⟨_, by rw [addFields_append, earlier, Option.bind_some, addFields, last]; rfl⟩

end HttpServer
