import HttpServer.Library.Numerals
import HttpServer.Library.Unicode
import Mathlib.Data.List.Basic

set_option autoImplicit false

/-!
# Tags and attributes

Where a reader of HTML stands after a text, told by angle brackets and quotes alone, and texts
with holes that are filled without moving it.
-/

namespace Tags

open Unicode

def opening : UInt16 := 0x3C

def closing : UInt16 := 0x3E

def quote : UInt16 := 0x22

def apostrophe : UInt16 := 0x27

inductive Place where
  | content
  | tag
  | double
  | single
  deriving DecidableEq

def Place.step : Place → UInt16 → Place
  | .content, u => if u = opening then .tag else .content
  | .tag, u =>
      if u = closing then .content
      else if u = quote then .double
      else if u = apostrophe then .single
      else .tag
  | .double, u => if u = quote then .tag else .double
  | .single, u => if u = apostrophe then .tag else .single

def Place.read (place : Place) (text : Units) : Place := text.foldl Place.step place

def isMark (u : UInt16) : Bool :=
  u == opening || u == closing || u == quote || u == apostrophe

def marks (text : Units) : Units := text.filter isMark

@[simp] theorem marks_nil : marks [] = [] := rfl

@[simp] theorem marks_append (s t : Units) : marks (s ++ t) = marks s ++ marks t :=
  List.filter_append s t

theorem marks_nil_iff {text : Units} : marks text = [] ↔ ∀ u ∈ text, isMark u = false := by
  simp [marks, List.filter_eq_nil_iff]

theorem marks_flatMap {α : Type} (f : α → Units) (xs : List α) :
    marks (xs.flatMap f) = xs.flatMap fun x => marks (f x) := by
  induction xs with
  | nil => rfl
  | cons x xs ih => rw [List.flatMap_cons, marks_append, ih, List.flatMap_cons]

theorem flatMap_related {α β γ : Type} {related : α → β → Prop} {f : α → List γ} {g : β → List γ}
    {xs : List α} {ys : List β} (all : List.Forall₂ related xs ys)
    (same : ∀ a b, related a b → f a = g b) : xs.flatMap f = ys.flatMap g := by
  induction all with
  | nil => rfl
  | cons here _ ih => rw [List.flatMap_cons, List.flatMap_cons, same _ _ here, ih]

@[simp] theorem Place.read_append (place : Place) (s t : Units) :
    place.read (s ++ t) = (place.read s).read t :=
  List.foldl_append

theorem Place.step_plain (place : Place) {u : UInt16} (plain : isMark u = false) :
    place.step u = place := by
  simp only [isMark, Bool.or_eq_false_iff, beq_eq_false_iff_ne] at plain
  obtain ⟨⟨⟨less, greater⟩, double⟩, single⟩ := plain
  cases place <;> simp [Place.step, less, greater, double, single]

-- Nothing but the marks moves a reader.
theorem Place.read_plain (place : Place) {text : Units} (plain : marks text = []) :
    place.read text = place := by
  rw [marks_nil_iff] at plain
  induction text with
  | nil => rfl
  | cons u rest ih =>
    rw [Place.read, List.foldl_cons, place.step_plain (plain u (by simp))]
    exact ih fun v member => plain v (by simp [member])

def ampersand : UInt16 := 0x26

-- An ampersand starts one of the entities.
def Referring (entities : List Units) (text : Units) : Prop :=
  ∀ front rest, text = front ++ ampersand :: rest → ∃ e ∈ entities, e <+: ampersand :: rest

variable {entities : List Units}

theorem referring_of_absent {text : Units} (absent : ampersand ∉ text) :
    Referring entities text := by
  rintro front rest rfl
  exact absurd (by simp) absent

theorem Referring.append {s t : Units} (left : Referring entities s)
    (right : Referring entities t) : Referring entities (s ++ t) := by
  intro front rest cut
  rcases List.append_eq_append_iff.mp cut with ⟨more, here, behind⟩ | ⟨more, here, behind⟩
  · exact right more rest behind
  · cases more with
    | nil =>
      rw [List.nil_append] at behind
      exact right [] rest behind.symm
    | cons u more =>
      obtain ⟨rfl, whole⟩ := List.cons.inj behind
      obtain ⟨e, known, starts⟩ := left front more here
      refine ⟨e, known, starts.trans ⟨t, ?_⟩⟩
      rw [whole]
      rfl

theorem referring_flatMap {α : Type} {f : α → Units} {xs : List α}
    (each : ∀ x ∈ xs, Referring entities (f x)) : Referring entities (xs.flatMap f) := by
  induction xs with
  | nil => exact referring_of_absent (by simp)
  | cons x xs ih =>
    rw [List.flatMap_cons]
    exact (each x (by simp)).append (ih fun y member => each y (by simp [member]))

theorem referring_entity {e : Units} (known : e ∈ entities) (once : ampersand ∉ e.tail) :
    Referring entities e := by
  rintro front rest rfl
  cases front with
  | nil => exact ⟨_, known, List.prefix_rfl⟩
  | cons u front => exact absurd (by simp) once

-- The character of a hexadecimal reference of two digits at the front of a text.
def reference? (text : Units) : Option UInt16 :=
  match text.take 6 with
  | [amp, number, hex, high, low, last] => do
      let x ← Numerals.digit? 16 high
      let y ← Numerals.digit? 16 low
      if [amp, number, hex, last] = [ampersand, 0x23, 0x78, 0x3B] then
        some (UInt16.ofNat (x * 16 + y))
      else none
  | _ => none

-- `skip` units of a reference are still to be passed over.
def dereferenceFrom : Units → Nat → Units
  | [], _ => []
  | _ :: rest, skip + 1 => dereferenceFrom rest skip
  | u :: rest, 0 =>
      match reference? (u :: rest) with
      | some v => v :: dereferenceFrom rest 5
      | none => u :: dereferenceFrom rest 0

def dereference (text : Units) : Units := dereferenceFrom text 0

theorem dereferenceFrom_skip (passed rest : Units) :
    dereferenceFrom (passed ++ rest) passed.length = dereference rest := by
  induction passed with
  | nil => rfl
  | cons u passed ih => exact ih

theorem reference?_absent {u : UInt16} (other : u ≠ ampersand) (rest : Units) :
    reference? (u :: rest) = none := by
  unfold reference?
  split
  · rename_i shape
    obtain ⟨rfl, -⟩ := List.cons.inj shape
    simp [other]
  · rfl

theorem dereference_plain {s : Units} (absent : ampersand ∉ s) (rest : Units) :
    dereference (s ++ rest) = s ++ dereference rest := by
  induction s with
  | nil => rfl
  | cons u s ih =>
    rw [List.mem_cons, not_or] at absent
    have here := reference?_absent (Ne.symm absent.1) (s ++ rest)
    simp only [dereference, List.cons_append, dereferenceFrom, here] at ih ⊢
    rw [ih absent.2]

theorem dereference_reference {u v : UInt16} {behind : Units} (five : behind.length = 5)
    (reads : ∀ rest, reference? (u :: (behind ++ rest)) = some v) (rest : Units) :
    dereference (u :: (behind ++ rest)) = v :: dereference rest := by
  have skipped := dereferenceFrom_skip behind rest
  rw [five] at skipped
  simp only [dereference, dereferenceFrom, reads rest, skipped]

inductive Piece where
  | fixed (text : Units)
  | hole (text : Units)

def Piece.text : Piece → Units
  | .fixed text => text
  | .hole text => text

def text (pieces : List Piece) : Units := pieces.flatMap Piece.text

@[simp] theorem text_append (ps qs : List Piece) : text (ps ++ qs) = text ps ++ text qs :=
  List.flatMap_append

@[simp] theorem text_nil : text [] = [] := rfl

@[simp] theorem text_cons (p : Piece) (ps : List Piece) : text (p :: ps) = p.text ++ text ps :=
  List.flatMap_cons

/-- In content or in a quoted attribute stands a text without marks, its ampersands referring. -/
structure Harmless (entities : List Units) (place : Place) (filling : Units) : Prop where
  place : place = .content ∨ place = .double
  plain : marks filling = []
  refers : Referring entities filling

/-- Read from the first place the pieces lead to the last, every hole harmless where it stands. -/
inductive Placed (entities : List Units) : Place → List Piece → Place → Prop
  | nil (place : Place) : Placed entities place [] place
  | fixed {place next last : Place} {t : Units} {rest : List Piece} (reads : place.read t = next)
      (later : Placed entities next rest last) : Placed entities place (.fixed t :: rest) last
  | hole {place last : Place} {filling : Units} {rest : List Piece}
      (harmless : Harmless entities place filling) (later : Placed entities place rest last) :
      Placed entities place (.hole filling :: rest) last

theorem Placed.silent {place last : Place} {t : Units} {rest : List Piece} (plain : marks t = [])
    (later : Placed entities place rest last) : Placed entities place (.fixed t :: rest) last :=
  .fixed (place.read_plain plain) later

theorem Placed.append {place next last : Place} {ps qs : List Piece}
    (front : Placed entities place ps next) (back : Placed entities next qs last) :
    Placed entities place (ps ++ qs) last := by
  induction front with
  | nil place => exact back
  | fixed reads later ih => exact .fixed reads (ih back)
  | hole harmless later ih => exact .hole harmless (ih back)

theorem Placed.flatMap {α : Type} {f : α → List Piece} {place : Place}
    (each : ∀ x, Placed entities place (f x) place) (xs : List α) :
    Placed entities place (xs.flatMap f) place := by
  induction xs with
  | nil => exact .nil place
  | cons x xs ih =>
    rw [List.flatMap_cons]
    exact (each x).append ih

theorem Placed.leads {place last : Place} {ps : List Piece}
    (placed : Placed entities place ps last) : place.read (text ps) = last := by
  induction placed with
  | nil place => rfl
  | fixed reads later ih => rw [text_cons, Place.read_append, Piece.text, reads, ih]
  | hole harmless later ih =>
    rw [text_cons, Place.read_append, Piece.text, Place.read_plain _ harmless.plain, ih]

-- Every hole is harmless where the text before it has led.
theorem Placed.harmless {place last : Place} {ps front back : List Piece} {filling : Units}
    (placed : Placed entities place ps last) (cut : ps = front ++ .hole filling :: back) :
    Harmless entities (place.read (text front)) filling := by
  induction placed generalizing front with
  | nil place => simp at cut
  | fixed reads later ih =>
    cases front with
    | nil => cases cut
    | cons p front =>
      obtain ⟨rfl, behind⟩ := List.cons.inj cut
      rw [text_cons, Place.read_append, Piece.text, reads]
      exact ih behind
  | hole harmless later ih =>
    cases front with
    | nil =>
      obtain ⟨same, -⟩ := List.cons.inj cut
      obtain rfl := Piece.hole.inj same
      exact harmless
    | cons p front =>
      obtain ⟨rfl, behind⟩ := List.cons.inj cut
      rw [text_cons, Place.read_append, Piece.text, Place.read_plain _ harmless.plain]
      exact ih behind

def Piece.shape : Piece → Piece
  | .fixed text => .fixed text
  | .hole _ => .hole []

end Tags
