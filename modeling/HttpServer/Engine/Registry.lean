import HttpServer.Engine.Moves

set_option autoImplicit false

namespace HttpServer.Shared

open OrderedMap Routines
open Engine (NativeError ServerError)

variable {w w' : World} {held : Holdings} {k : CallId} {h : Held} {f : FileId} {b : BodyId}

-- A call that holds a body or a file plans a request.
theorem Closing.not_drained (closing : Closing w held) (has : held.get k = some h)
    (planning : h.planning = true) : ¬w.Drained := by
  intro drained
  have some_ : 0 < held.count fun h => h.planning := count_pos has planning
  have none_ := drained.2
  rw [closing.planning] at none_
  omega

theorem Closing.planner_of (closing : Closing w held) (has : held.get k = some h)
    (own : h.owns = some b) : h.planning = true := by
  by_contra idle
  have nothing := (closing.planner k h has (by simpa using idle)).2.1
  rw [own] at nothing
  cases nothing

section

variable {files : OrderedMap FileId File} {bodies : OrderedMap BodyId BodyState}
  {responses : OrderedMap Int32 BodyId} {made : List BodyId} {closed : Bool}
  {credits : Bool → Credits} {body : PlanBody}

def BodyState.start (body : PlanBody) : BodyState := ⟨body, 0, false, false, 0, false⟩

theorem Custody.created (kept : Custody files bodies held) (has : held.get k = some h)
    (fresh : bodies.get b = none)
    (known : ∀ f, body.file? = some f → ∃ file, files.get f = some file) :
    Custody files (bodies.insert b (.start body)) (held.insert k (h.gives b body)) where
  base := kept.base
  file f file found opened := by
    rcases kept.file f file found opened with atRoot | mine | ⟨key, state, there, unreleased, source⟩
    · exact .inl atRoot
    · by_cases given : body.file? = some f
      · exact .inr (.inr ⟨b, .start body, get_insert_self _ _ _, rfl, given⟩)
      · refine .inr (.inl (exists_insert mine fun old was member => ?_))
        rw [has] at was
        cases was
        exact List.mem_filter.mpr ⟨member, by simpa using Ne.symm given⟩
    · refine .inr (.inr ⟨key, state, ?_, unreleased, source⟩)
      rwa [get_insert_ne]
      rintro rfl
      rw [fresh] at there
      cases there
  source key state f found source := by
    rcases get_insert_eq_some.mp found with ⟨rfl, rfl⟩ | ⟨-, before⟩
    · exact known f source
    · exact kept.source key state f before source
  settled key state found released := by
    rcases get_insert_eq_some.mp found with ⟨rfl, rfl⟩ | ⟨-, before⟩
    · cases released
    · exact kept.settled key state before released

theorem Owned.created (owned : Owned bodies responses made held) (has : held.get k = some h)
    (fresh : bodies.get b = none) (idle : h.owns = none) :
    Owned (bodies.insert b (.start body)) responses made (held.insert k (h.gives b body)) where
  body key state found unreleased := by
    rcases get_insert_eq_some.mp found with ⟨rfl, rfl⟩ | ⟨-, before⟩
    · exact .inr ⟨k, h.gives key body, get_insert_self _ _ _, rfl⟩
    · refine (owned.body key state before unreleased).imp id fun mine =>
        exists_insert mine fun old was own => ?_
      rw [has] at was
      cases was
      rw [idle] at own
      cases own
  fresh key other own there owns := by
    rcases get_insert_eq_some.mp there with ⟨rfl, rfl⟩ | ⟨-, before⟩
    · cases owns
      refine ⟨fun member => ?_, .start body, get_insert_self _ _ _, rfl, rfl⟩
      obtain ⟨state, found⟩ := owned.present b member
      rw [fresh] at found
      cases found
    · obtain ⟨absent, state, found, unreleased, charge⟩ := owned.fresh key other own before owns
      refine ⟨absent, state, ?_, unreleased, charge⟩
      rwa [get_insert_ne]
      rintro rfl
      rw [fresh] at found
      cases found
  single := by
    have other (key : CallId) (other : Held) (there : held.get key = some other)
        (own : other.owns = some b) : False := by
      obtain ⟨-, state, found, -⟩ := owned.fresh key other b there own
      rw [fresh] at found
      cases found
    intro key mine key' mine' own there there' owns owns'
    rcases get_insert_eq_some.mp there with ⟨rfl, rfl⟩ | ⟨-, before⟩ <;>
      rcases get_insert_eq_some.mp there' with ⟨rfl, rfl⟩ | ⟨-, before'⟩
    · rfl
    · cases owns
      exact (other key' mine' before' owns').elim
    · cases owns'
      exact (other key mine before owns).elim
    · exact owned.single key mine key' mine' own before before' owns owns'
  present key member := by
    obtain ⟨state, found⟩ := owned.present key member
    by_cases same : key = b
    · exact ⟨.start body, by rw [same, get_insert_self]⟩
    · exact ⟨state, by rwa [get_insert_ne _ _ same]⟩
  nodup := owned.nodup
  numbered := owned.numbered

theorem Readers.created (readers : Readers bodies held) (fresh : bodies.get b = none) :
    Readers (bodies.insert b (.start body)) held where
  reading key state found := by
    rcases get_insert_eq_some.mp found with ⟨rfl, rfl⟩ | ⟨-, before⟩
    · by_contra busy
      have some_ : 0 < held.count fun h => decide (h.reads = some key) := by
        change ¬0 = _ at busy
        omega
      obtain ⟨other, mine, there, reads⟩ := exists_of_count some_
      obtain ⟨state, known⟩ := readers.known other mine key there (of_decide_eq_true reads)
      rw [fresh] at known
      cases known
    · exact readers.reading key state before
  known key other own there reads := by
    obtain ⟨state, found⟩ := readers.known key other own there reads
    refine ⟨state, ?_⟩
    rwa [get_insert_ne]
    rintro rfl
    rw [fresh] at found
    cases found

theorem owes_start (body : PlanBody) (directory : Bool) : (BodyState.start body).owes directory =
    if directory then (World.metadataCharge body).toInt else 0 := by
  cases directory <;> rfl

theorem Charged.created (charged : Charged closed credits bodies held) (has : held.get k = some h)
    (fresh : bodies.get b = none) (positive : 0 ≤ (World.metadataCharge body).toInt)
    (enough : (World.metadataCharge body).toInt ≤ h.directory) :
    Charged closed credits (bodies.insert b (.start body)) (held.insert k (h.gives b body)) where
  owned live directory := by
    rw [charged.owned live directory, sum_insert has, sum_insert_absent fresh, owes_start]
    cases directory with
    | false =>
      change _ = _ - h.body + h.body + _
      simp
    | true =>
      change _ = _ - h.directory + (h.directory - (World.metadataCharge body).toInt) + _
      simp only [if_true]
      omega
  limit := charged.limit
  held key other directory there := by
    rcases get_insert_eq_some.mp there with ⟨rfl, rfl⟩ | ⟨-, before⟩
    · cases directory with
      | false => exact charged.held key h false has
      | true =>
        change 0 ≤ h.directory - (World.metadataCharge body).toInt
        omega
    · exact charged.held key other directory before
  bodies key state directory found := by
    rcases get_insert_eq_some.mp found with ⟨rfl, rfl⟩ | ⟨-, before⟩
    · rw [owes_start]
      split_ifs
      · exact positive
      · exact le_rfl
    · exact charged.bodies key state directory before

end

theorem Inv.creates {body : PlanBody} (inv : Inv w held) (has : held.get k = some h)
    (planning : h.planning = true) (idle : h.owns = none) (fresh : w.bodies.get b = none)
    (positive : 0 ≤ (World.metadataCharge body).toInt)
    (enough : (World.metadataCharge body).toInt ≤ h.directory)
    (known : ∀ f, body.file? = some f → ∃ file, w.files.get f = some file) :
    Inv { w with bodies := w.bodies.insert b (.start body) } (held.insert k (h.gives b body)) ∧
      Later w { w with bodies := w.bodies.insert b (.start body) } := by
  have stays {key : BodyId} {state : BodyState} (found : w.bodies.get key = some state) :
      (w.bodies.insert b (.start body)).get key = some state := by
    rwa [get_insert_ne]
    rintro rfl
    rw [fresh] at found
    cases found
  have later : Later w { w with bodies := w.bodies.insert b (.start body) } :=
    { Later.refl w with
      body := fun key state found => ⟨state, stays found, .refl state⟩
      bodies := fun drained => absurd drained (inv.closing.not_drained has planning) }
  refine ⟨⟨inv.jobs.insert has rfl, inv.freed, inv.kept.created has fresh known,
    inv.owned.created has fresh idle, (inv.readers.created fresh).insert has rfl,
    inv.charged.created has fresh positive enough,
    inv.closing.move has later rfl ?_ rfl inv.closing.both rfl rfl,
    inv.sleepers.grow rfl fun wait waits => ?_⟩, later⟩
  · intro none_
    change h.planning = false at none_
    rw [planning] at none_
    cases none_
  · cases wait with
    | quiet key =>
      simp only [World.waits, Option.any_eq_true] at waits ⊢
      obtain ⟨state, found, reading⟩ := waits
      exact ⟨state, stays found, reading⟩
    | still f => exact waits
    | drained => exact waits
    | rested => exact waits

-- As long as there are keys, no key is given twice.
theorem key_inj {m n : Nat} (smallM : m < 4294967296) (smallN : n < 4294967296)
    (same : Int32.ofNat m = Int32.ofNat n) : m = n := by
  have bits : (BitVec.ofNat 32 m).toNat = (BitVec.ofNat 32 n).toNat := by
    rw [← Int32.toBitVec_ofNat', ← Int32.toBitVec_ofNat', same]
  rw [BitVec.toNat_ofNat, BitVec.toNat_ofNat] at bits
  omega

section

variable {files : OrderedMap FileId File} {bodies : OrderedMap BodyId BodyState}
  {responses : OrderedMap Int32 BodyId} {made : List BodyId} {closed : Bool}
  {credits : Bool → Credits} {charge : Int32} {id : Int32}

theorem Owned.index (owned : Owned bodies responses made held) (few : made.length ≤ 4294967296)
    (present : responses.get id = some b) {n : Nat} {other : BodyId} (there : made[n]? = some other)
    (numbered : id = Int32.ofNat n) : b = other := by
  obtain ⟨m, mine, same⟩ := owned.numbered id b present
  have short (i : Nat) (body : BodyId) (found : made[i]? = some body) : i < 4294967296 := by
    obtain ⟨bound, -⟩ := List.getElem?_eq_some_iff.mp found
    omega
  obtain rfl := key_inj (short m b mine) (short n other there) (same.symm.trans numbered)
  rw [mine] at there
  cases there
  rfl

theorem Owned.registered (owned : Owned bodies responses made held) (has : held.get k = some h)
    (own : h.owns = some b) (few : made.length < 4294967296) :
    Owned (bodies.modify b fun state => { state with bodyCharge := charge })
      (responses.insert (Int32.ofNat made.length) b) (made ++ [b])
      (held.insert k (h.charges charge)) where
  body key state found unreleased := by
    rcases modify_cases found with ⟨rfl, -⟩ | ⟨other, before⟩
    · exact .inl ⟨_, get_insert_self _ _ _⟩
    · rcases owned.body key state before unreleased with ⟨id, present⟩ | mine
      · refine .inl ⟨id, ?_⟩
        rwa [get_insert_ne]
        intro taken
        obtain ⟨n, there, same⟩ := owned.numbered id key present
        obtain ⟨bound, -⟩ := List.getElem?_eq_some_iff.mp there
        have beyond := key_inj (by omega) few (same.symm.trans taken)
        omega
      · refine .inr (exists_insert mine fun old was owns => ?_)
        rw [has] at was
        cases was
        rw [own] at owns
        cases owns
        exact absurd rfl other
  fresh key other body there owns := by
    rcases get_insert_eq_some.mp there with ⟨rfl, rfl⟩ | ⟨different, before⟩
    · cases owns
    · obtain ⟨absent, state, found, unreleased, none_⟩ := owned.fresh key other body before owns
      have apart : body ≠ b := by
        rintro rfl
        exact different (owned.single key other k h body before has owns own)
      refine ⟨by simp [absent, apart], state, ?_, unreleased, none_⟩
      rwa [get_modify, if_neg apart]
  single key mine key' mine' body there there' owns owns' := by
    rcases get_insert_eq_some.mp there with ⟨rfl, rfl⟩ | ⟨-, before⟩ <;>
      rcases get_insert_eq_some.mp there' with ⟨rfl, rfl⟩ | ⟨-, before'⟩
    · rfl
    · cases owns
    · cases owns'
    · exact owned.single key mine key' mine' body before before' owns owns'
  present key member := by
    have known : ∃ state, bodies.get key = some state := by
      rcases List.mem_append.mp member with old | new
      · exact owned.present key old
      · obtain rfl := List.mem_singleton.mp new
        obtain ⟨-, state, found, -⟩ := owned.fresh k h key has own
        exact ⟨state, found⟩
    obtain ⟨state, found⟩ := known
    exact ⟨_, get_modify_some _ found⟩
  nodup := by
    have absent := (owned.fresh k h b has own).1
    exact owned.nodup.append (List.nodup_singleton b) (List.disjoint_singleton.mpr absent)
  numbered id body present := by
    rcases get_insert_eq_some.mp present with ⟨rfl, rfl⟩ | ⟨-, before⟩
    · exact ⟨made.length, by simp, rfl⟩
    · obtain ⟨n, there, same⟩ := owned.numbered id body before
      exact ⟨n, by rw [List.getElem?_append_left (List.getElem?_eq_some_iff.mp there).1, there], same⟩

theorem credits_charges (h : Held) (charge : Int32) (directory : Bool) :
    (h.charges charge).credits directory =
      h.credits directory - if directory then 0 else charge.toInt := by
  cases directory <;> simp [Held.credits, Held.charges]

theorem owes_charge (state : BodyState) (charge : Int32) :
    BodyState.owes true { state with bodyCharge := charge } = state.owes true ∧
      BodyState.owes false { state with bodyCharge := charge } =
        if state.released then 0 else charge.toInt := by
  simp [BodyState.owes]

theorem Charged.registered (charged : Charged closed credits bodies held)
    (has : held.get k = some h) {state : BodyState} (found : bodies.get b = some state)
    (unreleased : state.released = false) (free : state.bodyCharge = 0)
    (positive : 0 ≤ charge.toInt) (enough : charge.toInt ≤ h.body) :
    Charged closed credits (bodies.modify b fun state => { state with bodyCharge := charge })
      (held.insert k (h.charges charge)) where
  owned live directory := by
    rw [charged.owned live directory, sum_insert has, sum_modify found, credits_charges]
    cases directory with
    | false =>
      have before : state.owes false = 0 := by
        simp only [BodyState.owes, unreleased, free, Bool.false_eq_true, if_false, Int32.toInt_zero]
      rw [before, (owes_charge state charge).2, unreleased, if_neg Bool.false_ne_true]
      omega
    | true =>
      rw [(owes_charge state charge).1, if_pos rfl]
      omega
  limit := charged.limit
  held key other directory there := by
    rcases get_insert_eq_some.mp there with ⟨rfl, rfl⟩ | ⟨-, before⟩
    · have mine := charged.held key h directory has
      rw [credits_charges]
      cases directory with
      | false => exact sub_nonneg.mpr enough
      | true =>
        rw [if_pos rfl, sub_zero]
        exact mine
    · exact charged.held key other directory before
  bodies key other directory there := by
    rcases modify_cases there with ⟨rfl, old, before, rfl⟩ | ⟨-, before⟩
    · cases directory with
      | false =>
        rw [(owes_charge old charge).2]
        split_ifs
        · exact le_rfl
        · exact positive
      | true =>
        rw [(owes_charge old charge).1]
        exact charged.bodies key old true before
    · exact charged.bodies key other directory before

end

theorem Inv.registers {charge : Int32} (inv : Inv w held) (has : held.get k = some h)
    (own : h.owns = some b) (positive : 0 ≤ charge.toInt) (enough : charge.toInt ≤ h.body)
    (few : w.made.length < 4294967296) :
    Inv (w.register b charge) (held.insert k (h.charges charge)) ∧ Later w (w.register b charge) := by
  obtain ⟨-, state, found, unreleased, free⟩ := inv.owned.fresh k h b has own
  have planning := inv.closing.planner_of has own
  have alike (other : BodyState) (there : w.bodies.get b = some other) :
      other.Alike { other with bodyCharge := charge } := by
    rw [found] at there
    cases there
    exact ⟨⟨rfl, id, fun _ => id, id⟩, rfl, fun released => by
      rw [unreleased] at released
      cases released⟩
  have first : Later w (w.onBody b fun state => { state with bodyCharge := charge }) :=
    later_onBody fun other there => (alike other there).later
  have later : Later w (w.register b charge) :=
    { first with
      made := fun n body there => by
        change (w.made ++ [b])[n]? = some body
        rw [List.getElem?_append_left (List.getElem?_eq_some_iff.mp there).1, there]
      responses := fun drained => absurd drained (inv.closing.not_drained has planning) }
  have readers : Readers (w.register b charge).bodies held := inv.readers.onBody fun _ _ => rfl
  refine ⟨⟨inv.jobs.insert has rfl, inv.freed,
    (inv.kept.onBody alike).insert has fun f => .inl,
    inv.owned.registered has own few, readers.insert has rfl,
    inv.charged.registered has found unreleased free positive enough,
    inv.closing.move has later rfl ?_ rfl inv.closing.both rfl rfl,
    inv.sleepers.grow rfl fun wait waits => ?_⟩, later⟩
  · intro none_
    change h.planning = false at none_
    rw [planning] at none_
    cases none_
  · cases wait with
    | quiet key =>
      simp only [World.waits, Option.any_eq_true] at waits ⊢
      obtain ⟨state, found, reading⟩ := waits
      refine ⟨_, get_modify_some _ found, ?_⟩
      split_ifs
      · exact reading
      · exact reading
    | still f => exact waits
    | drained => exact waits
    | rested => exact waits

-- A response is forgotten when its body has been released.
theorem Inv.forgets {id : Int32} (inv : Inv w held) (few : w.Numbered) {n : Nat}
    (there : w.made[n]? = some b) (numbered : id = Int32.ofNat n)
    (settled : w.OnBody b (·.released = true)) :
    Inv { w with responses := w.responses.erase id } held ∧
      Later w { w with responses := w.responses.erase id } := by
  have before {key : Int32} {body : BodyId}
      (present : (w.responses.erase id).get key = some body) : w.responses.get key = some body := by
    rw [get_erase] at present
    split_ifs at present
    exact present
  have later : Later w { w with responses := w.responses.erase id } :=
    { Later.refl w with responses := fun _ _ _ present => before present }
  have owned : Owned w.bodies (w.responses.erase id) w.made held := {
    inv.owned with
    body := fun key state found unreleased => by
      refine (inv.owned.body key state found unreleased).imp ?_ fun mine => mine
      rintro ⟨other, present⟩
      refine ⟨other, ?_⟩
      rw [get_erase, if_neg]
      · exact present
      · rintro rfl
        obtain rfl := inv.owned.index few present there numbered
        obtain ⟨released, same, gone⟩ := settled
        rw [found] at same
        cases same
        rw [unreleased] at gone
        cases gone
    numbered := fun key body present => inv.owned.numbered key body (before present) }
  exact ⟨⟨inv.jobs, inv.freed, inv.kept, owned, inv.readers, inv.charged,
    inv.closing.stay later rfl inv.closing.both rfl rfl, inv.sleepers⟩, later⟩

def BodyState.settle (state : BodyState) : BodyState :=
  { state with body := World.closeStream state.body, released := true }

theorem settle_body {state : BodyState} (found : w.bodies.get b = some state) :
    (w.settle b).bodies.get b = some state.settle := by
  have still (w : World) (directory : Bool) (bytes : Int32) :
      (w.release directory bytes).bodies = w.bodies := by
    unfold World.release
    split_ifs <;> rfl
  have after : (w.settle b).bodies = w.bodies.modify b BodyState.settle := by
    simp only [World.settle, found]
    split_ifs
    · rfl
    · rw [still, still]
      rfl
  rw [after, get_modify, if_pos rfl, found, Option.map_some]

theorem file_closeStream (body : PlanBody) : (World.closeStream body).file? = body.file? := by
  cases body <;> rfl

theorem Charged.covered {bodies : OrderedMap BodyId BodyState} {credits : Bool → Credits}
    {state : BodyState} (charged : Charged false credits bodies held)
    (found : bodies.get b = some state) (directory : Bool) :
    state.owes directory ≤ (credits directory).owned := by
  have mine : state.owes directory ≤ bodies.sum fun _ state => state.owes directory :=
    le_sum found fun key other there => charged.bodies key other directory there
  have others : 0 ≤ held.sum fun _ h => h.credits directory :=
    sum_nonneg fun key other there => charged.held key other directory there
  rw [charged.owned rfl directory]
  omega

theorem owes_unreleased {state : BodyState} (unreleased : state.released = false) :
    state.owes true = (World.metadataCharge state.body).toInt ∧
      state.owes false = state.bodyCharge.toInt := by
  simp [BodyState.owes, unreleased]

theorem release_paid (w : World) (directory : Bool) {bytes : Int32} (live : w.runtime.closed = false)
    (positive : 0 ≤ bytes.toInt) (covered : bytes.toInt ≤ (w.runtime.credits directory).owned) :
    ∃ r : Runtime, w.release directory bytes = { w with runtime := r } ∧
      r.closing = w.runtime.closing ∧ r.closed = w.runtime.closed ∧ r.active = w.runtime.active ∧
      ∀ other, (r.credits other).owned =
        (w.runtime.credits other).owned - if other = directory then bytes.toInt else 0 := by
  obtain ⟨closing, closed, active⟩ := setCredits_rest w.runtime directory
    { w.runtime.credits directory with
      owned := (w.runtime.credits directory).owned - bytes.toInt }
  refine ⟨_, release_live live positive covered, closing, closed, active, fun other => ?_⟩
  rw [credits_setCredits]
  split_ifs with same
  · rw [same]
  · exact (sub_zero _).symm

theorem settle_live {state : BodyState} (found : w.bodies.get b = some state)
    (unreleased : state.released = false) (live : w.runtime.closed = false)
    (positive : ∀ directory, 0 ≤ state.owes directory)
    (covered : ∀ directory, state.owes directory ≤ (w.runtime.credits directory).owned) :
    ∃ r : Runtime, w.settle b = { w.onBody b BodyState.settle with runtime := r } ∧
      r.closing = w.runtime.closing ∧ r.closed = w.runtime.closed ∧ r.active = w.runtime.active ∧
      ∀ directory, (r.credits directory).owned =
        (w.runtime.credits directory).owned - state.owes directory := by
  obtain ⟨listing, buffer⟩ := owes_unreleased unreleased
  have notReleased : ¬state.released = true := by simp [unreleased]
  have settled : w.settle b =
      ((w.onBody b BodyState.settle).release true (World.metadataCharge state.body)).release false
        state.bodyCharge := by
    simp only [World.settle, found, if_neg notReleased]
    rfl
  obtain ⟨r, first, closing, closed, active, paid⟩ :=
    release_paid (w.onBody b BodyState.settle) true live
      (listing ▸ positive true) (listing ▸ covered true)
  have rest : (r.credits false).owned = (w.runtime.credits false).owned := by
    rw [paid, if_neg Bool.false_ne_true, sub_zero]
    rfl
  obtain ⟨r', second, closing', closed', active', paid'⟩ :=
    release_paid { w.onBody b BodyState.settle with runtime := r } false (closed.trans live)
      (buffer ▸ positive false) (by
        rw [← buffer]
        exact (covered false).trans_eq rest.symm)
  refine ⟨r', by rw [settled, first, second], closing'.trans closing, closed'.trans closed,
    active'.trans active, fun directory => ?_⟩
  rw [paid' directory]
  change (r.credits directory).owned - _ = _
  rw [paid directory]
  change (w.runtime.credits directory).owned - _ - _ = _
  cases directory with
  | false => simp [buffer]
  | true => simp [listing]

section

variable {files : OrderedMap FileId File} {bodies : OrderedMap BodyId BodyState}
  {responses : OrderedMap Int32 BodyId} {made : List BodyId} {credits credits' : Bool → Credits}
  {state : BodyState} {h' : Held}

theorem Custody.settles (kept : Custody files bodies held) (found : bodies.get b = some state)
    (closed : state.closed = true) (quiet : state.reading = false)
    (gone : ∀ f, state.body.file? = some f → ∃ file, files.get f = some file ∧ file.closed = true) :
    Custody files (bodies.modify b BodyState.settle) held where
  base := kept.base
  file f file known opened := by
    refine (kept.file f file known opened).imp id (.imp id ?_)
    rintro ⟨key, other, there, unreleased, source⟩
    have different : key ≠ b := by
      rintro rfl
      rw [found] at there
      cases there
      obtain ⟨other, same, isClosed⟩ := gone f source
      rw [known] at same
      cases same
      rw [opened] at isClosed
      cases isClosed
    refine ⟨key, other, ?_, unreleased, source⟩
    rwa [get_modify, if_neg different]
  source key other f there source := by
    rcases modify_cases there with ⟨rfl, old, before, rfl⟩ | ⟨-, before⟩
    · exact kept.source key old f before (file_closeStream old.body ▸ source)
    · exact kept.source key other f before source
  settled key other there released := by
    rcases modify_cases there with ⟨rfl, old, before, rfl⟩ | ⟨-, before⟩
    · rw [found] at before
      cases before
      refine ⟨closed, quiet, fun f source => gone f ?_⟩
      rw [← file_closeStream]
      exact source
    · exact kept.settled key other before released

theorem Owned.settles (owned : Owned bodies responses made held) (has : held.get k = some h)
    (mine : h.owns = some b ∨ b ∈ made)
    (owns : h'.owns = if h.owns = some b then none else h.owns) :
    Owned (bodies.modify b BodyState.settle) responses made (held.insert k h') where
  body key other there unreleased := by
    rcases modify_cases there with ⟨rfl, old, before, rfl⟩ | ⟨different, before⟩
    · cases unreleased
    · refine (owned.body key other before unreleased).imp id fun mine =>
        exists_insert mine fun old was own => ?_
      rw [has] at was
      cases was
      rw [owns, own, if_neg fun same => different (Option.some.inj same)]
  fresh key other body there own := by
    have before : ∃ old, held.get key = some old ∧ old.owns = some body ∧ body ≠ b := by
      rcases get_insert_eq_some.mp there with ⟨rfl, rfl⟩ | ⟨different, before⟩
      · rw [owns] at own
        split_ifs at own with same
        refine ⟨h, has, own, ?_⟩
        rintro rfl
        exact same own
      · refine ⟨other, before, own, ?_⟩
        rintro rfl
        rcases mine with mine | registered
        · exact different (owned.single key other k h body before has own mine)
        · exact (owned.fresh key other body before own).1 registered
    obtain ⟨old, was, own, different⟩ := before
    obtain ⟨absent, state, found, rest⟩ := owned.fresh key old body was own
    exact ⟨absent, state, by rwa [get_modify, if_neg different], rest⟩
  single key other key' other' body there there' own own' := by
    have before (key : CallId) (other : Held) (there : (held.insert k h').get key = some other)
        (own : other.owns = some body) : ∃ old, held.get key = some old ∧ old.owns = some body := by
      rcases get_insert_eq_some.mp there with ⟨rfl, rfl⟩ | ⟨-, before⟩
      · rw [owns] at own
        split_ifs at own
        exact ⟨h, has, own⟩
      · exact ⟨other, before, own⟩
    obtain ⟨old, was, own⟩ := before key other there own
    obtain ⟨old', was', own'⟩ := before key' other' there' own'
    exact owned.single key old key' old' body was was' own own'
  present key member := by
    obtain ⟨state, found⟩ := owned.present key member
    exact ⟨_, get_modify_some _ found⟩
  nodup := owned.nodup
  numbered := owned.numbered

theorem Charged.settles (charged : Charged false credits bodies held)
    (found : bodies.get b = some state)
    (paid : ∀ directory, (credits' directory).owned =
      (credits directory).owned - state.owes directory) :
    Charged false credits' (bodies.modify b BodyState.settle) held where
  owned live directory := by
    have none_ : state.settle.owes directory = 0 := rfl
    rw [paid, charged.owned live directory, sum_modify found, none_]
    omega
  limit directory := by
    have positive := charged.bodies b state directory found
    have most := charged.limit directory
    rw [paid]
    omega
  held := charged.held
  bodies key other directory there := by
    rcases modify_cases there with ⟨rfl, old, before, rfl⟩ | ⟨-, before⟩
    · exact le_rfl
    · exact charged.bodies key other directory before

end

theorem Inv.settles {state : BodyState} (inv : Inv w held) (has : held.get k = some h)
    (found : w.bodies.get b = some state) (closed : state.closed = true)
    (quiet : state.reading = false) (mine : h.owns = some b ∨ b ∈ w.made)
    (gone : ∀ f, state.body.file? = some f → ∃ file, w.files.get f = some file ∧ file.closed = true) :
    Inv (w.settle b) (held.insert k (h.settles b)) ∧ Later w (w.settle b) := by
  have unique (other : BodyState) (there : w.bodies.get b = some other) : other = state := by
    rw [found] at there
    exact (Option.some.inj there).symm
  have same : ∀ state, w.bodies.get b = some state → (BodyState.settle state).reading = state.reading :=
    fun _ _ => rfl
  by_cases released : state.released = true
  · have calm (other : BodyState) (there : w.bodies.get b = some other) :
        other.Calm other.settle := by
      obtain rfl := unique other there
      refine ⟨⟨⟨file_closeStream _, id, fun _ => id, fun _ => rfl⟩, released.symm, fun _ => quiet⟩,
        rfl, fun directory => ?_⟩
      simp only [BodyState.owes, BodyState.settle, released, if_true]
    have settled : w.settle b = w.onBody b BodyState.settle := by
      simp only [World.settle, found, released, if_true]
      rfl
    have owner : h.settles b = h := by
      have other : h.owns ≠ some b := by
        intro own
        obtain ⟨-, old, there, unreleased, -⟩ := inv.owned.fresh k h b has own
        rw [unique old there, released] at unreleased
        cases unreleased
      simp [Held.settles, other]
    rw [settled, owner, insert_same has]
    exact inv.calm calm same
  · have unreleased : state.released = false := by simpa using released
    have live : w.runtime.closed = false := by
      by_contra dead
      have cleared := (inv.closing.ended (by simpa using dead)).1
      rw [cleared.2.2 b state found] at unreleased
      cases unreleased
    have charged : Charged false w.runtime.credits w.bodies held := live ▸ inv.charged
    obtain ⟨r, settled, closing, isClosed, active, paid⟩ := settle_live found unreleased live
      (fun directory => charged.bodies b state directory found) (charged.covered found)
    rw [settled]
    have first : Later w (w.onBody b BodyState.settle) := later_onBody fun other there => by
      obtain rfl := unique other there
      exact ⟨file_closeStream _, id, fun _ => id, fun _ => rfl⟩
    have later : Later w { w.onBody b BodyState.settle with runtime := r } :=
      { first with
        stopping := fun stopping => ⟨stopping.1, closing.trans stopping.2⟩
        active := fun rested => active.trans rested.2
        closed := fun dead => isClosed.trans dead }
    have jobs : Jobs w.files r.active held := active ▸ inv.jobs
    have readers : Readers (w.bodies.modify b BodyState.settle) held := inv.readers.onBody same
    have paidUp : Charged r.closed r.credits (w.bodies.modify b BodyState.settle) held := by
      rw [isClosed, live]
      exact charged.settles found paid
    have planner : (h.settles b).planning = false →
        (h.settles b).files = [] ∧ (h.settles b).owns = none ∧ (h.settles b).directory = 0 := by
      intro idle
      obtain ⟨files, owns, directory⟩ := inv.closing.planner k h has idle
      exact ⟨files, by simp [Held.settles, owns], directory⟩
    refine ⟨⟨jobs.insert has rfl, inv.freed,
      (inv.kept.settles found closed quiet gone).insert has fun f => .inl,
      inv.owned.settles has mine rfl, readers.insert has rfl, paidUp.insert has fun _ => rfl,
      inv.closing.move has later rfl planner rfl (inv.closing.both.trans closing.symm) isClosed rfl,
      inv.sleepers.grow rfl fun wait waits => ?_⟩, later⟩
    cases wait with
    | quiet key =>
      simp only [World.waits, Option.any_eq_true] at waits ⊢
      obtain ⟨other, there, reading⟩ := waits
      refine ⟨_, get_modify_some _ there, ?_⟩
      split_ifs
      · exact reading
      · exact reading
    | rested =>
      change decide (0 < r.active) = true
      rw [active]
      exact waits
    | still f => exact waits
    | drained => exact waits

theorem Inv.stops (inv : Inv w held) :
    Inv { w with closing := true, runtime := { w.runtime with closing := true } } held ∧
      Later w { w with closing := true, runtime := { w.runtime with closing := true } } := by
  have later : Later w { w with closing := true, runtime := { w.runtime with closing := true } } :=
    { Later.refl w with stopping := fun _ => ⟨rfl, rfl⟩ }
  refine ⟨⟨inv.jobs, inv.freed, inv.kept, inv.owned, inv.readers, inv.charged,
    inv.closing.stay later rfl rfl rfl rfl, inv.sleepers.grow rfl fun wait waits => ?_⟩, later⟩
  cases wait with
  | still f => exact waits
  | quiet b => exact waits
  | drained => exact waits
  | rested => exact waits

-- When the last request has been planned, every body that is left is registered.
theorem Inv.all_released (inv : Inv w held) (drained : w.Drained)
    (settled : ∀ id b, w.responses.get id = some b → w.OnBody b (·.released = true)) :
    ∀ b state, w.bodies.get b = some state → state.released = true := by
  intro b state found
  by_contra unreleased
  rcases inv.owned.body b state found (by simpa using unreleased) with ⟨id, present⟩ | mine
  · obtain ⟨other, there, released⟩ := settled id b present
    rw [found] at there
    cases there
    exact unreleased released
  · obtain ⟨k, h, there, own⟩ := mine
    exact inv.closing.not_drained there (inv.closing.planner_of there own) drained

theorem Inv.clears (inv : Inv w held) (drained : w.Drained)
    (settled : ∀ id b, w.responses.get id = some b → w.OnBody b (·.released = true)) :
    Inv { w with responses := ∅ } held ∧ Later w { w with responses := ∅ } ∧
      World.Cleared { w with responses := ∅ } := by
  have released := inv.all_released drained settled
  have later : Later w { w with responses := ∅ } :=
    { Later.refl w with responses := fun _ _ _ present => by cases present }
  have owned : Owned w.bodies ∅ w.made held := {
    inv.owned with
    body := fun b state found unreleased => by
      rw [released b state found] at unreleased
      cases unreleased
    numbered := fun _ _ present => by cases present }
  exact ⟨⟨inv.jobs, inv.freed, inv.kept, owned, inv.readers, inv.charged,
    inv.closing.stay later rfl inv.closing.both rfl rfl, inv.sleepers⟩, later,
    drained, rfl, released⟩

theorem Inv.freesPool (inv : Inv w held) (cleared : w.Cleared) (rested : w.Rested)
    (gone : w.OnFile root (·.closed = true)) (live : w.runtime.closed = false) :
    Inv { w with
      runtime := { w.runtime with closed := true }
      poolsFreed := w.poolsFreed + 1 } held ∧
      Later w { w with
        runtime := { w.runtime with closed := true }
        poolsFreed := w.poolsFreed + 1 } := by
  have later : Later w { w with
      runtime := { w.runtime with closed := true }
      poolsFreed := w.poolsFreed + 1 } :=
    { Later.refl w with
      stopping := fun stopping => stopping
      active := fun rested => rested.2
      closed := fun _ => rfl }
  have closing : Closing { w with
      runtime := { w.runtime with closed := true }
      poolsFreed := w.poolsFreed + 1 } held := {
    planning := inv.closing.planning
    planner := inv.closing.planner
    both := inv.closing.both
    late := inv.closing.late
    ended := fun _ => ⟨later.cleared cleared, later.rested rested, gone, rfl⟩
    pool := by
      change w.poolsFreed + 1 = 1
      rw [inv.closing.pool, live]
      rfl }
  have charged : Charged true w.runtime.credits w.bodies held := {
    inv.charged with owned := fun live => by cases live }
  refine ⟨⟨inv.jobs, inv.freed, inv.kept, inv.owned, inv.readers, charged, closing,
    inv.sleepers.grow rfl fun wait waits => ?_⟩, later⟩
  cases wait with
  | still f => exact waits
  | quiet b => exact waits
  | drained => exact waits
  | rested => exact waits

theorem Inv.sleeps {wait : Wait} (inv : Inv w held) (waits : w.waits wait = true) :
    Inv { w with asleep := (k, wait) :: w.asleep } held ∧
      Later w { w with asleep := (k, wait) :: w.asleep } := by
  have later : Later w { w with asleep := (k, wait) :: w.asleep } := { Later.refl w with }
  refine ⟨⟨inv.jobs, inv.freed, inv.kept, inv.owned, inv.readers, inv.charged,
    inv.closing.stay later rfl inv.closing.both rfl rfl, fun sleeper member => ?_⟩, later⟩
  have stays (wait : Wait) (waits : w.waits wait = true) :
      World.waits { w with asleep := (k, wait) :: w.asleep } wait = true := by
    cases wait <;> exact waits
  rcases List.mem_cons.mp member with rfl | old
  · cases wait <;> exact waits
  · have before := inv.sleepers sleeper old
    obtain ⟨other, wait⟩ := sleeper
    cases wait <;> exact before

end HttpServer.Shared
