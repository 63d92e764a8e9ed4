import HttpServer.Core.DateForms

set_option autoImplicit false

namespace HttpServer.Core

open Unicode Text
open Calendar (Date Instant)

-- The seconds from 1970 to the end of 9999.
def Datable (t : Int64) : Prop := 0 ≤ t.toInt ∧ t.toInt ≤ 253402300799

theorem datable_year {t : Int64} {i : Instant} (epoch : i.epoch = t.toInt) (datable : Datable t) :
    1970 ≤ i.date.year ∧ i.date.year ≤ 9999 := by
  obtain ⟨first, last⟩ := datable
  have number := i.number_eq
  have ordinal := i.date.ordinal_lt
  have within : i.date.number = Calendar.yearStart i.date.year + i.date.ordinal := rfl
  have end_ : Calendar.yearStart 10000 = 2932897 := by decide
  constructor
  · by_contra early
    have start := Calendar.yearStart_succ_le (by omega : i.date.year < 1970)
    rw [Calendar.yearStart_epoch] at start
    omega
  · by_contra late
    have start := Calendar.yearStart_le (by omega : 10000 ≤ i.date.year)
    omega

theorem parseHttpDate_formatHttpDate {t : Int64} (datable : Datable t) :
    parseHttpDate (formatHttpDate t) = some t := by
  obtain ⟨i, epoch⟩ := Instant.exists_epoch t.toInt
  have year := datable_year epoch datable
  have number := i.number_eq
  obtain ⟨first, last⟩ := datable
  have written := (formatHttpDate_iff epoch (by omega) (by omega)).mpr
    ⟨Or.inl first, by omega⟩
  have read := imfFixdate_value i year.1 year.2
  rw [← written, epoch] at read
  obtain ⟨u, parsed, same⟩ := Option.map_eq_some_iff.mp read
  rw [parsed, Int64.toInt_inj.mp same]

theorem ofInt_nonneg {n : Int} (nonneg : 0 ≤ n) : ofInt n = ofNat n.toNat := by
  rw [ofInt, if_neg (by omega)]
  congr 1
  omega

theorem ofNat_inj {m n : Nat} (same : ofNat m = ofNat n) : m = n := by
  have value := @ofNat_value m
  rw [same, ofNat_value] at value
  exact (Option.some.inj value).symm

theorem ofNat_no_dash (n : Nat) : unit '-' ∉ ofNat n := fun member =>
  absurd ((numeral_digits (@ofNat_value n)).2 _ member) (by decide)

theorem ofInt_inj {m n : Int} (same : ofInt m = ofInt n) : m = n := by
  unfold ofInt at same
  have negative {a b : Nat} (both : unit '-' :: ofNat a = ofNat b) : False :=
    ofNat_no_dash b (both ▸ List.mem_cons_self)
  split_ifs at same with left right right
  · have := ofNat_inj (List.cons.inj same).2
    omega
  · exact (negative same).elim
  · exact (negative same.symm).elim
  · have := ofNat_inj same
    omega

-- The size of a file has no sign, so the first dash ends it.
theorem fromMetadata_tag {size size' mtime mtime' : Int64} {weak weak' : Bool}
    (nonneg : 0 ≤ size.toInt) (nonneg' : 0 ≤ size'.toInt) :
    (EntityTag.fromMetadata size mtime weak).tag = (EntityTag.fromMetadata size' mtime' weak').tag ↔
      size = size' ∧ mtime = mtime' := by
  constructor
  · intro same
    have dash : str "-" = [unit '-'] := by decide
    simp only [EntityTag.fromMetadata, List.append_assoc, ofInt_nonneg nonneg,
      ofInt_nonneg nonneg', dash, List.append_cancel_left_eq, List.singleton_append] at same
    have cut {a b : Nat} {s t : Str} (whole : ofNat a ++ unit '-' :: s = ofNat b ++ unit '-' :: t) :
        ofNat a = ofNat b ∧ s = t := by
      have left := @find_append _ s _ (ofNat_no_dash a)
      rw [whole, find_append (ofNat_no_dash b), Option.some.injEq] at left
      obtain ⟨front, back⟩ := List.append_inj whole left.symm
      exact ⟨front, (List.cons.inj back).2⟩
    obtain ⟨sizes, times⟩ := cut same
    have size_ := ofNat_inj sizes
    have mtime_ := ofInt_inj (List.append_cancel_right times)
    exact ⟨Int64.toInt_inj.mp (by omega), Int64.toInt_inj.mp mtime_⟩
  · rintro ⟨rfl, rfl⟩
    rfl

-- Between two quotes stand digits and dashes.
theorem fromMetadata_quoted (size mtime : Int64) (weak : Bool) : ∃ inner,
    (EntityTag.fromMetadata size mtime weak).tag = unit '"' :: (inner ++ [unit '"']) ∧
      ∀ u ∈ inner, u ≠ unit ',' := by
  have quote : str "\"" = [unit '"'] := by decide
  have dash : str "-" = [unit '-'] := by decide
  have digits (n : Nat) : ∀ u ∈ ofNat n, u ≠ unit ',' := by
    rintro u member rfl
    exact absurd ((numeral_digits (@ofNat_value n)).2 _ member) (by decide)
  have signed (n : Int) : ∀ u ∈ ofInt n, u ≠ unit ',' := by
    intro u member
    unfold ofInt at member
    split_ifs at member
    · rcases List.mem_cons.mp member with rfl | member
      · decide
      · exact digits _ u member
    · exact digits _ u member
  refine ⟨ofInt size.toInt ++ unit '-' :: ofInt mtime.toInt, ?_, fun u member => ?_⟩
  · simp [EntityTag.fromMetadata, quote, dash]
  · rcases List.mem_append.mp member with member | member
    · exact signed _ u member
    · rcases List.mem_cons.mp member with rfl | member
      · decide
      · exact signed _ u member

theorem quoted_header {t : EntityTag} {inner : Str} (quoted : t.tag = unit '"' :: (inner ++ [unit '"'])) :
    ∃ front, t.toHeaderValue = front ++ [unit '"'] ∧
      (t.isWeak = true → front = unit 'W' :: unit '/' :: unit '"' :: inner) ∧
      (t.isWeak = false → front = unit '"' :: inner) := by
  have weak : str "W/" = [unit 'W', unit '/'] := by decide
  unfold EntityTag.toHeaderValue
  split_ifs with isWeak
  · exact ⟨_, by rw [quoted, weak]; rfl, fun _ => rfl, fun strong => by simp [isWeak] at strong⟩
  · exact ⟨_, by rw [quoted]; rfl, fun strong => absurd strong isWeak, fun _ => rfl⟩

def tagList (headerVal : Str) : List Str := (split headerVal (unit ',')).map trim

-- What is compared of a tag.
def compared (tag : Str) : Str := if hasPrefix tag (str "W/") then tag.drop 2 else tag

theorem trim_trim (s : Str) : trim (trim s) = trim s := by
  rw [trim, dropWhile_trim]
  exact List.rdropWhile_idempotent isSpace (s.dropWhile isSpace)

theorem ifNoneMatch_iff {headerVal : Str} {t : EntityTag} {weakCompare : Bool} :
    ifNoneMatchMatches headerVal t weakCompare = true ↔
      ∃ tag ∈ tagList headerVal, tag = str "*" ∨ compared tag = t.tag ∧
        (weakCompare = true ∨ hasPrefix tag (str "W/") = false ∧ t.isWeak = false) := by
  have one (tag : Str) : etagMatches (trim tag) t weakCompare = true ↔
      trim tag = str "*" ∨ compared (trim tag) = t.tag ∧
        (weakCompare = true ∨ hasPrefix (trim tag) (str "W/") = false ∧ t.isWeak = false) := by
    rw [etagMatches, trim_trim]
    by_cases star : trim tag = str "*"
    · simp [star]
    · rw [if_neg star, compared]
      cases weakCompare with
      | true => simp [star]
      | false => cases hasPrefix (trim tag) (str "W/") <;> cases t.isWeak <;> simp [star]
  simp only [ifNoneMatchMatches, tagList, List.any_eq_true, List.mem_map, one]
  constructor
  · rintro ⟨raw, member, fits⟩
    exact ⟨_, ⟨raw, member, rfl⟩, fits⟩
  · rintro ⟨_, ⟨raw, member, rfl⟩, fits⟩
    exact ⟨raw, member, fits⟩

-- A tag that comes back alone is compared as a whole.
theorem tagList_header (size mtime : Int64) (weak : Bool) {t : EntityTag}
    (from_ : EntityTag.fromMetadata size mtime weak = t) :
    tagList t.toHeaderValue = [t.toHeaderValue] ∧ t.toHeaderValue ≠ str "*" ∧
      compared t.toHeaderValue = t.tag ∧ hasPrefix t.toHeaderValue (str "W/") = weak := by
  obtain ⟨inner, quoted, plain⟩ := fromMetadata_quoted size mtime weak
  have isWeak : t.isWeak = weak := by rw [← from_]; rfl
  rw [from_] at quoted
  obtain ⟨front, value, weakFront, strongFront⟩ := quoted_header quoted
  have first : ∃ u rest, front = u :: rest ∧ isSpace u = false ∧ u ≠ unit '*' := by
    cases shape : t.isWeak with
    | true => exact ⟨_, _, weakFront shape, by decide, by decide⟩
    | false => exact ⟨_, _, strongFront shape, by decide, by decide⟩
  have absent : unit ',' ∉ t.toHeaderValue := by
    have clean : unit ',' ∉ inner := fun member => plain _ member rfl
    have apart : unit ',' ≠ unit '"' ∧ unit ',' ≠ unit 'W' ∧ unit ',' ≠ unit '/' := by decide
    rw [value]
    cases shape : t.isWeak with
    | true => simp [weakFront shape, clean, apart]
    | false => simp [strongFront shape, clean, apart]
  obtain ⟨u, rest, start, visible, other⟩ := first
  have trimmed : trim t.toHeaderValue = t.toHeaderValue := by
    rw [value, start]
    apply trim_eq_self
    · intro v same
      cases same
      exact visible
    · intro v same
      rw [List.getLast?_append, List.getLast?_singleton] at same
      cases same
      decide
  refine ⟨?_, ?_, ?_⟩
  · rw [tagList, split, List.splitOn_eq_singleton absent, List.map_singleton, trimmed]
  · intro same
    rw [value, start] at same
    exact other (List.cons.inj same).1
  · cases weak with
    | true =>
      have client : hasPrefix t.toHeaderValue (str "W/") = true := by
        rw [value, weakFront isWeak]
        rfl
      refine ⟨?_, client⟩
      rw [compared, if_pos client, value, weakFront isWeak, quoted]
      rfl
    | false =>
      have client : hasPrefix t.toHeaderValue (str "W/") = false := by
        rw [value, strongFront isWeak]
        rfl
      have whole : t.toHeaderValue = t.tag := by
        rw [EntityTag.toHeaderValue, isWeak]
        rfl
      refine ⟨?_, client⟩
      rw [compared, client, whole]
      rfl

theorem ifNoneMatch_header (size mtime : Int64) (weak : Bool) (new : EntityTag) (weakCompare : Bool) :
    ifNoneMatchMatches (EntityTag.fromMetadata size mtime weak).toHeaderValue new weakCompare =
      ((weakCompare || !(weak || new.isWeak)) &&
        (EntityTag.fromMetadata size mtime weak).tag == new.tag) := by
  obtain ⟨alone, star, tag, mark⟩ := tagList_header size mtime weak rfl
  rw [Bool.eq_iff_iff, ifNoneMatch_iff, alone]
  simp only [List.mem_singleton, exists_eq_left, star, false_or, tag, mark, Bool.and_eq_true,
    Bool.or_eq_true, Bool.not_eq_true', Bool.or_eq_false_iff, beq_iff_eq]
  exact and_comm

end HttpServer.Core
