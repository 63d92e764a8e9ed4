import HttpServer.Library.MachineInt
import HttpServer.StaticPlan.Markup

set_option autoImplicit false

namespace HttpServer.StaticPlan

open Unicode Text

-- The next text, unless the footer has been given out.
def ListingStream.next (self : ListingStream) : Option ListingStream :=
  if self.stage = 0 then
    some { self with
      stage := 1, pending := encode (listingHeader self.title self.query), position := 0 }
  else if self.stage = 1 then
    match self.entries[self.index.toInt.toNat]? with
    | some entry => some { self with
        index := self.index + 1, pending := encode (listingRow entry self.query), position := 0 }
    | none => some { self with
        stage := 2, pending := encode (listingFooter self.host), position := 0 }
  else none

-- The loop of `read`: `true` when a text is pending.
def ListingStream.refill : Nat → ListingStream → Bool × ListingStream
  | 0, self => (false, self)
  | fuel + 1, self =>
      if self.position = Int32.ofNat self.pending.length then
        match self.next with
        | some after => after.refill fuel
        | none => (false, self)
      else (true, self)

def ListingStream.read (self : ListingStream) (limit : Int32) : Bytes × ListingStream :=
  if limit ≤ 0 then ([], self)
  else
    match self.refill (self.entries.length + 3) with
    | (false, after) => ([], after)
    | (true, after) =>
        let left := Int32.ofNat after.pending.length - after.position
        let count := if limit < left then limit else left
        ((after.pending.drop after.position.toInt.toNat).take count.toInt.toNat,
          { after with position := after.position + count })

def ListingStream.close (self : ListingStream) : ListingStream :=
  { self with entries := [], pending := [], position := 0, stage := 2 }

def ListingStream.rows (self : ListingStream) : Bytes :=
  (self.entries.drop self.index.toInt.toNat).flatMap
      (fun entry => encode (listingRow entry self.query)) ++ encode (listingFooter self.host)

def ListingStream.later (self : ListingStream) : Bytes :=
  if self.stage = 0 then encode (listingHeader self.title self.query) ++ self.rows
  else if self.stage = 1 then self.rows
  else []

def ListingStream.toCome (self : ListingStream) : Bytes :=
  self.pending.drop self.position.toInt.toNat ++ self.later

structure ListingStream.Fits (stream : ListingStream) : Prop where
  entries : stream.entries.length ≤ 2147483647
  header : (encode (listingHeader stream.title stream.query)).length ≤ 2147483647
  row : ∀ entry ∈ stream.entries, (encode (listingRow entry stream.query)).length ≤ 2147483647
  footer : (encode (listingFooter stream.host)).length ≤ 2147483647

structure ListingStream.Sound (stream : ListingStream) : Prop where
  fits : stream.Fits
  pending : stream.pending.length ≤ 2147483647
  start : 0 ≤ stream.position.toInt
  position : stream.position.toInt ≤ stream.pending.length
  first : 0 ≤ stream.index.toInt
  index : stream.index.toInt ≤ stream.entries.length

def ListingStream.rounds (self : ListingStream) : Nat :=
  if self.stage = 0 then self.entries.length - self.index.toInt.toNat + 2
  else if self.stage = 1 then self.entries.length - self.index.toInt.toNat + 1
  else 0

variable {self after : ListingStream}

-- What `read` moves is none of the texts.
theorem ListingStream.Fits.moved (fits : self.Fits) (stage index : Int32) (pending : Bytes)
    (position : Int32) :
    ListingStream.Fits { self with stage, index, pending, position } :=
  ⟨fits.entries, fits.header, fits.row, fits.footer⟩

theorem ofNat_length {bytes : Bytes} (bound : bytes.length ≤ 2147483647) :
    (Int32.ofNat bytes.length).toInt = bytes.length := Int32.toInt_ofNat_of_lt (by omega)

theorem ListingStream.toCome_fresh (fresh : self.position = 0) :
    self.toCome = self.pending ++ self.later := by
  have zero : (0 : Int32).toInt.toNat = 0 := by decide
  rw [ListingStream.toCome, fresh, zero, List.drop_zero]

-- The next text is the front of what was still to come.
theorem ListingStream.next_some (sound : self.Sound) (found : self.next = some after) :
    after.Sound ∧ after.toCome = self.later ∧ after.rounds < self.rounds ∧
      after.entries = self.entries := by
  have zero : (0 : Int32).toInt = 0 := by decide
  have one : (1 : Int32).toInt = 1 := by decide
  have stage : (1 : Int32) ≠ 0 := by decide
  unfold ListingStream.next at found
  split_ifs at found with header rows
  · obtain rfl := Option.some.inj found
    refine ⟨⟨sound.fits.moved _ _ _ _, sound.fits.header, by simp [zero], by simp [zero],
      sound.first, sound.index⟩, ?_, ?_, rfl⟩
    · rw [ListingStream.toCome_fresh rfl]
      simp [ListingStream.later, ListingStream.rows, header]
    · simp [ListingStream.rounds, header]
  · cases entry : self.entries[self.index.toInt.toNat]? with
    | some row =>
      simp only [entry, Option.some.injEq] at found
      obtain rfl := found
      obtain ⟨inside, rfl⟩ := List.getElem?_eq_some_iff.mp entry
      have first := sound.first
      have entries := sound.fits.entries
      have index : (self.index + 1).toInt = self.index.toInt + 1 := by
        rw [MachineInt.add32] <;> rw [one] <;> omega
      have natural : (self.index + 1).toInt.toNat = self.index.toInt.toNat + 1 := by omega
      refine ⟨⟨sound.fits.moved _ _ _ _, sound.fits.row _ (List.getElem_mem inside),
        by simp [zero], by simp [zero], by simp only [index]; omega,
        by simp only [index]; omega⟩, ?_, ?_, rfl⟩
      · rw [ListingStream.toCome_fresh rfl]
        simp only [ListingStream.later, ListingStream.rows, rows, natural, if_neg stage, if_true,
          List.drop_eq_getElem_cons inside, List.flatMap_cons, List.append_assoc]
      · simp only [ListingStream.rounds, rows, natural, if_neg stage, if_true]
        omega
    | none =>
      simp only [entry, Option.some.injEq] at found
      obtain rfl := found
      have past := List.getElem?_eq_none_iff.mp entry
      refine ⟨⟨sound.fits.moved _ _ _ _, sound.fits.footer, by simp [zero], by simp [zero],
        sound.first, sound.index⟩, ?_, ?_, rfl⟩
      · rw [ListingStream.toCome_fresh rfl]
        simp [-Int32.toNat_toInt, ListingStream.later, ListingStream.rows, rows,
          List.drop_eq_nil_of_le past]
      · simp [ListingStream.rounds, rows]

theorem ListingStream.next_none (found : self.next = none) :
    self.later = [] := by
  unfold ListingStream.next at found
  split_ifs at found with header rows
  · split at found <;> cases found
  · simp [ListingStream.later, header, rows]

theorem ListingStream.Sound.position_eq (sound : self.Sound) :
    self.position = Int32.ofNat self.pending.length ↔
      self.pending.drop self.position.toInt.toNat = [] := by
  have size := ofNat_length sound.pending
  have start := sound.start
  have position := sound.position
  rw [← Int32.toInt_inj, size, List.drop_eq_nil_iff]
  omega

-- The loop keeps what is still to come, and stops at a text or at the end.
theorem ListingStream.refill_spec {fuel : Nat} (sound : self.Sound) (enough : self.rounds < fuel) :
    ∃ more after, self.refill fuel = (more, after) ∧ after.Sound ∧
      after.toCome = self.toCome ∧
      if more then after.pending.drop after.position.toInt.toNat ≠ []
      else after.toCome = [] := by
  induction fuel generalizing self with
  | zero => omega
  | succ fuel ih =>
    rw [ListingStream.refill]
    by_cases used : self.position = Int32.ofNat self.pending.length
    · rw [if_pos used]
      have front := sound.position_eq.mp used
      cases found : self.next with
      | some next =>
        obtain ⟨soundNext, comes, fewer, -⟩ := ListingStream.next_some sound found
        obtain ⟨more, after, run, soundAfter, same, stops⟩ := ih soundNext (by omega)
        refine ⟨more, after, run, soundAfter, ?_, stops⟩
        rw [same, comes, ListingStream.toCome, front, List.nil_append]
      | none =>
        refine ⟨false, self, rfl, sound, rfl, ?_⟩
        simp only [Bool.false_eq_true, if_false, ListingStream.toCome, front,
          ListingStream.next_none found, List.append_nil]
    · rw [if_neg used]
      exact ⟨true, self, rfl, sound, rfl, by simpa using mt sound.position_eq.mpr used⟩

theorem ListingStream.rounds_lt (self : ListingStream) :
    self.rounds < self.entries.length + 3 := by
  unfold ListingStream.rounds
  split_ifs <;> omega

-- A chunk is the front of what was still to come, and empty only at the end.
theorem ListingStream.read_spec (limit : Int32) (sound : self.Sound)
    (positive : 0 < limit.toInt) :
    ∃ chunk after, self.read limit = (chunk, after) ∧ after.Sound ∧
      self.toCome = chunk ++ after.toCome ∧
      (chunk.length : Int) ≤ limit.toInt ∧ (chunk = [] → self.toCome = []) := by
  have zero : (0 : Int32).toInt = 0 := by decide
  obtain ⟨more, next, run, soundNext, same, stops⟩ :=
    ListingStream.refill_spec sound self.rounds_lt
  rw [ListingStream.read, if_neg (by rw [Int32.le_iff_toInt_le]; omega), run]
  cases more with
  | false =>
    refine ⟨[], next, rfl, soundNext, same.symm, by simp; omega, fun _ => same ▸ stops⟩
  | true =>
    have size := ofNat_length soundNext.pending
    have start := soundNext.start
    have position := soundNext.position
    have pending := soundNext.pending
    have left : (Int32.ofNat next.pending.length - next.position).toInt =
        next.pending.length - next.position.toInt := by
      rw [MachineInt.sub32] <;> rw [size] <;> omega
    dsimp only
    generalize counts : (if limit < Int32.ofNat next.pending.length - next.position then limit
      else Int32.ofNat next.pending.length - next.position) = count
    have least : count.toInt = min limit.toInt (next.pending.length - next.position.toInt) := by
      rw [← counts]
      split_ifs with less
      · rw [Int32.lt_iff_toInt_lt, left] at less
        omega
      · rw [Int32.lt_iff_toInt_lt, left] at less
        omega
    have some : next.pending.drop next.position.toInt.toNat ≠ [] := by simpa using stops
    have inside : next.position.toInt < next.pending.length := by
      by_contra past
      exact some (List.drop_eq_nil_of_le (by omega))
    have moved : (next.position + count).toInt = next.position.toInt + count.toInt :=
      MachineInt.add32 (by omega) (by omega)
    have natural : (next.position + count).toInt.toNat =
        next.position.toInt.toNat + count.toInt.toNat := by omega
    refine ⟨_, _, rfl, ⟨soundNext.fits.moved _ _ _ _, pending, by simp only [moved]; omega,
      by simp only [moved]; omega, soundNext.first, soundNext.index⟩, ?_, ?_, ?_⟩
    · rw [← same]
      simp only [ListingStream.toCome, natural]
      rw [← List.drop_drop, ← List.append_assoc, List.take_append_drop]
      rfl
    · rw [List.length_take]
      omega
    · intro none
      have length := congrArg List.length none
      rw [List.length_take, List.length_drop, List.length_nil] at length
      omega

def ListingStream.chunks : List Int32 → ListingStream → List Bytes × ListingStream
  | [], self => ([], self)
  | limit :: limits, self =>
      let (chunk, after) := self.read limit
      let (rest, last) := after.chunks limits
      (chunk :: rest, last)

def ListingStream.fresh (entries : List ListingEntry) (title : Str) (query : Option Str)
    (host : Str) : ListingStream :=
  ⟨entries, title, query, host, 0, 0, [], 0⟩

/-- What a sequence of reads is owed: `page` in chunks within their limits, with an empty one
exactly where all has come, and nothing once the stream is closed. -/
structure ListingStream.Streams (stream : ListingStream) (page : Bytes) (limits : List Int32) :
    Prop where
  bounds : List.Forall₂ (fun (chunk : Bytes) (limit : Int32) => (chunk.length : Int) ≤ limit.toInt)
    (stream.chunks limits).1 limits
  front : (stream.chunks limits).1.flatten <+: page
  ended : ∀ before chunk later, (stream.chunks limits).1 = before ++ chunk :: later →
    (chunk = [] ↔ before.flatten = page)
  complete : page.length ≤ limits.length → (stream.chunks limits).1.flatten = page
  closed : ∀ more, ∀ chunk ∈ ((stream.chunks limits).2.close.chunks more).1, chunk = []

theorem ListingStream.read_closed (self : ListingStream) (limit : Int32) :
    self.close.read limit = ([], self.close) := by
  have ended : self.close.next = none := rfl
  have used : self.close.position = Int32.ofNat self.close.pending.length := rfl
  unfold ListingStream.read
  split_ifs
  · rfl
  · rw [ListingStream.refill, if_pos used, ended]

theorem ListingStream.chunks_closed (self : ListingStream) (more : List Int32) :
    ∀ chunk ∈ (self.close.chunks more).1, chunk = [] := by
  induction more with
  | nil => simp [ListingStream.chunks]
  | cons limit more ih =>
    simp only [ListingStream.chunks, self.read_closed, List.mem_cons, forall_eq_or_imp, true_and]
    exact ih

-- Each chunk is the front of what the chunks before it have left.
theorem ListingStream.chunks_spec {limits : List Int32} (sound : self.Sound)
    (positive : ∀ limit ∈ limits, 0 < limit.toInt) : self.Streams self.toCome limits := by
  induction limits generalizing self with
  | nil =>
    refine ⟨.nil, List.nil_prefix, ?_, ?_, fun more => ListingStream.chunks_closed _ more⟩
    · intro before chunk later cut
      simp [ListingStream.chunks] at cut
    · intro short
      exact (List.length_eq_zero_iff.mp (Nat.le_zero.mp short)).symm
  | cons limit limits ih =>
    obtain ⟨chunk, next, run, soundNext, whole, small, only⟩ :=
      ListingStream.read_spec limit sound (positive limit (by simp))
    have rest := ih soundNext fun limit member => positive limit (by simp [member])
    have here : (self.chunks (limit :: limits)).1 = chunk :: (next.chunks limits).1 := by
      simp only [ListingStream.chunks, run]
    have empty : chunk = [] ↔ self.toCome = [] := by
      refine ⟨only, fun none => ?_⟩
      rw [none] at whole
      exact (List.append_eq_nil_iff.mp whole.symm).1
    refine ⟨?_, ?_, ?_, ?_, fun more => ListingStream.chunks_closed _ more⟩
    · rw [here]
      exact .cons small rest.bounds
    · rw [here, whole, List.flatten_cons, List.prefix_append_right_inj]
      exact rest.front
    · intro before last later cut
      rw [here] at cut
      cases before with
      | nil =>
        obtain rfl := (List.cons.inj cut).1
        rw [List.flatten_nil, empty, eq_comm]
      | cons first before =>
        obtain ⟨rfl, behind⟩ := List.cons.inj cut
        rw [rest.ended before last later behind, whole, List.flatten_cons,
          List.append_cancel_left_eq]
    · intro long
      rw [here, whole, List.flatten_cons, List.append_cancel_left_eq]
      by_cases none : chunk = []
      · have nothing := empty.mp none
        rw [whole, none, List.nil_append] at nothing
        exact rest.complete (by simp [nothing])
      · have some := List.length_pos_iff.mpr none
        rw [whole, List.length_append, List.length_cons] at long
        exact rest.complete (by omega)

theorem ListingStream.fresh_sound {entries : List ListingEntry} {title host : Str}
    {query : Option Str} (fits : (ListingStream.fresh entries title query host).Fits) :
    (ListingStream.fresh entries title query host).Sound := by
  have zero : (0 : Int32).toInt = 0 := by decide
  exact ⟨fits, by simp [ListingStream.fresh], by simp [ListingStream.fresh, zero],
    by simp [ListingStream.fresh, zero], by simp [ListingStream.fresh, zero],
    by simp [ListingStream.fresh, zero]⟩

theorem ListingStream.fresh_toCome (entries : List ListingEntry) (title : Str)
    (query : Option Str) (host : Str) : (ListingStream.fresh entries title query host).toCome =
      encode (renderDirectoryHtml title entries query host) := by
  have zero : (0 : Int32).toInt.toNat = 0 := by decide
  rw [ListingStream.toCome_fresh rfl, encode_renderDirectoryHtml]
  simp only [ListingStream.fresh, ListingStream.later, ListingStream.rows, if_true, zero,
    List.drop_zero, List.nil_append]

/-- The stream of a listing gives out the rendered page. -/
theorem listing_streams {entries : List ListingEntry} {title host : Str} {query : Option Str}
    {limits : List Int32} (fits : (ListingStream.fresh entries title query host).Fits)
    (positive : ∀ limit ∈ limits, 0 < limit.toInt) :
    (ListingStream.fresh entries title query host).Streams
      (encode (renderDirectoryHtml title entries query host)) limits := by
  rw [← ListingStream.fresh_toCome]
  exact ListingStream.chunks_spec (ListingStream.fresh_sound fits) positive

-- A companion renders to nothing, and the three bytes of the title's sign come one by one.
theorem listing_streams_companion :
    (ListingStream.fresh [⟨str "a.br", false, 0, 0, true, false, false⟩] [0x20AC] none
      (str "localhost")).Streams
      (encode (renderDirectoryHtml [0x20AC] [⟨str "a.br", false, 0, 0, true, false, false⟩] none
        (str "localhost"))) [70, 1, 1, 1, 2000, 2000] :=
  listing_streams ⟨by decide, by decide +kernel, by
    intro entry member
    obtain rfl := List.mem_singleton.mp member
    decide +kernel, by decide +kernel⟩ (by simp)

end HttpServer.StaticPlan
