import HttpServer.Engine.Conduct

set_option autoImplicit false

namespace HttpServer.Shared

open Unicode Text HttpServer.Core OrderedMap Dialogue Routines
open Engine (NativeError ServerError mapNativeError)

variable {h : Held} {known : Set Fact} {f : FileId} {b : BodyId} {op : Op} {r : Response}

section

variable {α β : Type}

-- What the call held, it holds at the end.
abbrev Stays (h : Held) (known : Set Fact) (act : Talk α) : Prop := Does h known act fun h' _ _ => h' = h

theorem stays_bind {act : Action α} {rest : α → Action β} (first : Stays h known act.run)
    (later : ∀ a known', known ⊆ known' → Stays h known' (rest a).run) :
    Stays h known (act >>= rest).run := by
  refine first.try_bind (fun _ _ _ _ same => same) ?_
  rintro h' known' a grows rfl
  exact later a known' grows

theorem stays_lift {act : Talk α} {rest : α → Action β} (first : Stays h known act)
    (later : ∀ a known', known ⊆ known' → Stays h known' (rest a).run) :
    Stays h known ((liftM act : Action α) >>= rest).run := by
  refine first.lift_bind ?_
  rintro h' known' a grows rfl
  exact later a known' grows

theorem mapped_stays {act : Action α} (stays : Stays h known act.run) :
    Stays h known (mapped act).run :=
  stays.try_catch (fun _ _ _ _ same => same) fun _ _ _ _ same => same

theorem put_stays {query : Ask} (idle : h.job = query.job?) (asks : h.Asks known query)
    (after : ∀ answer, h.after query answer = h) : Stays h known (put query) :=
  .put ⟨idle, asks⟩ fun answer _ => after answer

end

theorem fileRun_stays (idle : h.job = none) (here : .known f ∈ known) (quiet : op.gives = false) :
    Stays h known (fileRun f op).run := by
  refine (fileRun_does idle here fun gives => ?_).mono fun h' known' result => ?_
  · rw [quiet] at gives
    cases gives
  · rintro ⟨-, rfl, -⟩
    exact afterJob_quiet idle quiet result

/-- Only its part in a read and what it collects. -/
structure Held.Bare (h : Held) : Prop where
  job : h.job = none
  files : h.files = []
  owns : h.owns = none

theorem close_stays (bare : h.Bare) (reads : h.reads = none) (given : Given known r) :
    Stays h known (close r) := by
  refine (closeState_does ⟨bare.job, reads⟩ bare.files given.1 (.inr given.2.1)).bind ?_
  rintro h' known' - grows ⟨rfl, settled⟩
  have same : h.settles r.state = h := by
    simp only [Held.settles, bare.owns, reduceCtorEq, if_false]
    rw [← bare.owns]
  rw [same]
  exact .put ⟨bare.job, r.state, grows given.2.2, settled⟩ fun _ _ => rfl

section

variable {α : Type}

theorem begins_does (idle : h.job = none) (reads : h.reads = none) (here : .present b ∈ known)
    (positive : Bool) :
    Does h known (begins b positive).run fun h' _ result =>
      h' = (if result.isOk then { h with reads := some b } else h) ∧
        (h.late = true → result = .error (raises .closed)) := by
  refine Kept.map (Kept.put ⟨idle, here, reads⟩ fun answer fits => ?_) fun h' _ _ _ after => after
  cases answer with
  | error e =>
    refine ⟨rfl, fun late => ?_⟩
    cases fits late
    rfl
  | ok _ => exact ⟨rfl, fun late => by cases fits late⟩

theorem errdeferred_does {act : Action α} {last : Talk Unit}
    {middle ends : Held → Set Fact → Except Failure α → Prop} (kept : Does h known act.run middle)
    (fails : ∀ h' known' e, known ⊆ known' → middle h' known' (.error e) →
      Does h' known' last fun h'' known'' _ => ends h'' known'' (.error e))
    (goes : ∀ h' known' a, known ⊆ known' → middle h' known' (.ok a) → ends h' known' (.ok a)) :
    Does h known (errdeferred last act).run ends := by
  refine Kept.bind kept fun h' known' result grows holds => ?_
  cases result with
  | ok a => exact goes h' known' a grows holds
  | error e => exact (fails h' known' e grows holds).bind fun _ _ _ _ after => after

theorem reading_does {act : Action α} (bare : h.Bare) (reads : h.reads = none)
    (given : Given known r) (stays : Stays { h with reads := some r.state } known act.run) :
    Does { h with reads := some r.state } known (reading r act).run fun h' _ _ => h' = h := by
  have idle : ({ h with reads := none } : Held) = h := by rw [← reads]
  have failed : Does { h with reads := some r.state } known
      (errdeferred (do fails r.state; close r) act).run fun h' known' _ =>
        h' = { h with reads := some r.state } ∨ h' = h ∧ .quiet r.state ∈ known' := by
    refine errdeferred_does stays ?_ fun h' known' a _ same => .inl same
    rintro h' known' e grows rfl
    refine .put_bind ⟨bare.job, rfl⟩ fun _ _ => ?_
    change Does { h with reads := none } _ _ _
    rw [idle]
    refine (close_stays bare reads (given.grow (grows.trans Set.subset_union_left))).grows.mono ?_
    rintro h' known'' - ⟨more, rfl⟩
    exact .inr ⟨rfl, more (.inr (.inr rfl))⟩
  refine failed.bind ?_
  rintro h' known' result - (rfl | ⟨rfl, quiet⟩)
  · exact .put_bind ⟨bare.job, .inl rfl⟩ fun _ _ => idle
  · exact .put_bind ⟨bare.job, .inr ⟨reads, quiet⟩⟩ fun _ _ => idle

theorem uses_does {act : Action α} {positive : Bool} (bare : h.Bare) (reads : h.reads = none)
    (given : Given known r)
    (stays : ∀ known', known ⊆ known' → Stays { h with reads := some r.state } known' act.run) :
    Does h known (do begins r.state positive; reading r act : Action α).run fun h' _ result =>
      h' = h ∧ (h.late = true → result = .error (raises .closed)) := by
  refine (begins_does bare.job reads given.1 positive).try_bind ?_ ?_
  · rintro h' known' e - ⟨rfl, refused⟩
    refine ⟨rfl, fun late => ?_⟩
    have same : (.error e : Except Failure Unit) = .error (raises .closed) := refused late
    cases same
    rfl
  · rintro h' known' ⟨⟩ grows ⟨rfl, refused⟩
    refine (reading_does bare reads (given.grow grows) (stays known' grows)).mono ?_
    rintro h' known'' result rfl
    exact ⟨rfl, fun late => by cases refused late⟩

-- Where the first act refuses whoever is late, only the others go on.
theorem refuses_bind {act : Action α} {β : Type} {rest : α → Action β}
    (kept : Does h known act.run fun h' _ result =>
      h' = h ∧ (h.late = true → result = .error (raises .closed)))
    (later : h.late ≠ true → ∀ a known', known ⊆ known' → Does h known' (rest a).run
      fun h' _ _ => h' = h) :
    Does h known (act >>= rest).run fun h' _ result =>
      h' = h ∧ (h.late = true → result = .error (raises .closed)) := by
  refine kept.try_bind ?_ ?_
  · rintro h' known' e - ⟨rfl, refused⟩
    refine ⟨rfl, fun late => ?_⟩
    have same : (.error e : Except Failure α) = .error (raises .closed) := refused late
    cases same
    rfl
  · rintro h' known' a grows ⟨rfl, refused⟩
    have began : h'.late ≠ true := fun late => by cases refused late
    exact (later began a known' grows).mono fun _ _ _ same => ⟨same, fun late => absurd late began⟩

end

theorem check_does (bare : h.Bare) (reads : h.reads = none) (given : Given known r) :
    Does h known (check r).run fun h' _ result =>
      h' = h ∧ (h.late = true → result = .error (raises .closed)) := by
  refine uses_does bare reads given fun known' grows => ?_
  refine .put_bind ⟨bare.job, (given.grow grows).1⟩ fun body _ => ?_
  cases body with
  | fileRegion f offset length =>
    exact mapped_stays (fileRun_stays bare.job (.inr (.inr (.inr ⟨f, rfl, rfl⟩))) rfl)
  | empty => exact rfl
  | bytes content => exact rfl
  | listing stream charge => exact rfl

theorem readChunk_stays (maxLen : Int32) (idle : h.job = none) (reads : h.reads = some r.state)
    (here : .present r.state ∈ known) :
    Stays h known (readChunk r maxLen).run := by
  have last (chunk : Bytes) {known' : Set Fact} (grows : known ⊆ known') :
      Stays h known' (do
        if ← stopped r.state then throw (raises .closed)
        else do
          advances r.state (Int64.ofNat chunk.length)
          return chunk : Action Bytes).run := by
    refine .put_bind ⟨idle, grows here⟩ fun isStopped _ => ?_
    cases isStopped with
    | true => exact rfl
    | false => exact .put_bind ⟨idle, reads⟩ fun _ _ => rfl
  refine .put_bind ⟨idle, here⟩ fun body _ => .put_bind ⟨idle, .inl here⟩ fun cursor _ => ?_
  have grows : known ⊆ known ∪ sourceFacts r.state body ∪ ∅ := fun _ old => .inl (.inl old)
  have taken (none_ : body.file? = none) (count : Int32) :
      Stays h (known ∪ sourceFacts r.state body ∪ ∅) (takes r.state count) := by
    refine put_stays idle ⟨reads, .inl (.inr (.inr (.inl ?_)))⟩ fun _ => rfl
    rw [none_]
  cases body with
  | fileRegion f offset length =>
    have opened : Fact.known f ∈ known ∪ sourceFacts r.state (.fileRegion f offset length) ∪ ∅ :=
      .inl (.inr (.inr (.inr ⟨f, rfl, rfl⟩)))
    refine stays_bind (mapped_stays (fileRun_stays idle opened rfl)) fun _ known' more => ?_
    exact stays_bind (mapped_stays (fileRun_stays idle (more opened) rfl)) fun chunk known'' later =>
      last chunk (grows.trans (more.trans later))
  | empty => exact stays_lift (taken rfl _) fun chunk known' more => last chunk (grows.trans more)
  | bytes content => exact stays_lift (taken rfl _) fun chunk known' more => last chunk (grows.trans more)
  | listing stream charge =>
    exact stays_lift (taken rfl _) fun chunk known' more => last chunk (grows.trans more)

theorem read_does (maxLen : Int32) (bare : h.Bare) (reads : h.reads = none) (given : Given known r) :
    Does h known (read r maxLen).run fun h' _ result =>
      h' = h ∧ (h.late = true → result = .error (raises .closed)) :=
  uses_does bare reads given fun _ grows => readChunk_stays maxLen bare.job rfl (given.grow grows).1

theorem collect_does (maxBytes : Int32) (fuel : Nat) {reserved : Int32} {buf : Bytes} (bare : h.Bare)
    (reads : h.reads = none) (given : Given known r) (charge : h.body = reserved.toInt)
    (positive : 0 ≤ reserved.toInt) :
    Does h known (collect r maxBytes fuel reserved buf) fun h' _ result =>
      h' = { h with body := result.1.toInt } ∧ 0 ≤ result.1.toInt ∧
        (h.late = true → result.2 = .error (raises .closed)) := by
  induction fuel generalizing h known reserved buf with
  | zero => exact hangs_does _ ⟨bare.job, reads⟩
  | succ fuel ih =>
    have same : h = { h with body := reserved.toInt } := by rw [← charge]
    refine (read_does 65536 bare reads given).bind ?_
    rintro h' known' result grows ⟨rfl, refused⟩
    cases result with
    | error e => exact ⟨same, positive, fun late => by rw [refused late]⟩
    | ok chunk =>
      have began : ¬h'.late = true := fun late => by cases refused late
      have stop {known' : Set Fact} (result : Except Failure Bytes) : Does h' known'
          (.done (reserved, result) : Talk (Int32 × Except Failure Bytes)) fun h'' _ result =>
            h'' = { h' with body := result.1.toInt } ∧ 0 ≤ result.1.toInt ∧
              (h'.late = true → result.2 = .error (raises .closed)) :=
        ⟨same, positive, fun late => absurd late began⟩
      dsimp only
      split
      · exact stop _
      · split
        · exact stop _
        · split
          · exact stop _
          · refine .put_bind ⟨bare.job, fun directory => by cases directory⟩ fun answer fits => ?_
            cases answer with
            | error e => exact stop _
            | ok _ =>
              obtain ⟨nonneg, enough⟩ := fits
              have enough : h'.body + (Int32.ofNat chunk.length * 4).toInt ≤ 2147483647 := enough
              have sum : (reserved + Int32.ofNat chunk.length * 4).toInt =
                  reserved.toInt + (Int32.ofNat chunk.length * 4).toInt := by
                rw [MachineInt.add32] <;> omega
              refine (ih (h := { h' with body := h'.body + (Int32.ofNat chunk.length * 4).toInt })
                ⟨bare.job, bare.files, bare.owns⟩ reads
                (given.grow (grows.trans Set.subset_union_left)) (by rw [sum, ← charge])
                (by omega)).mono fun h'' _ result after => ?_
              exact after

theorem toBytes_does (maxBytes : Int32) (fuel : Nat) (bare : h.Bare) (reads : h.reads = none)
    (given : Given known r) (nothing : h.body = 0) :
    Does h known (toBytes r maxBytes fuel).run fun h' _ result =>
      h' = h ∧ (h.late = true →
        result = .error (raises .closed) ∨ result = .error (raises .overloaded)) := by
  have guarded {stops : Prop} [Decidable stops] {rest : Talk (Except Failure Bytes)} {known' : Set Fact}
      (kept : Does h known' rest fun h' _ result => h' = h ∧ (h.late = true →
        result = .error (raises .closed) ∨ result = .error (raises .overloaded))) :
      Does h known' (if stops then throw (raises .overloaded) else ExceptT.mk rest : Action Bytes).run
        fun h' _ result => h' = h ∧ (h.late = true →
          result = .error (raises .closed) ∨ result = .error (raises .overloaded)) := by
    split
    · exact ⟨rfl, fun _ => .inr rfl⟩
    · exact kept
  refine errdeferred_does (.put_bind ⟨bare.job, given.1⟩ fun body _ =>
    .put_bind ⟨bare.job, .inl given.1⟩ fun cursor _ => guarded ?_) ?_ fun _ _ _ _ after => after
  · refine (collect_does maxBytes fuel bare reads (given.grow fun _ old => .inl (.inl old))
      (nothing.trans Int32.toInt_zero.symm) Int32.toInt_zero.ge).bind ?_
    rintro h' known'' ⟨reserved, result⟩ - ⟨rfl, positive, refused⟩
    refine .put_bind ⟨bare.job, positive, le_rfl⟩ fun _ _ => ⟨?_, fun late => .inl (refused late)⟩
    change ({ h with body := reserved.toInt + -reserved.toInt } : Held) = h
    rw [add_neg_cancel, ← nothing]
  · rintro h' known' e grows ⟨rfl, refused⟩
    refine (close_stays bare reads (given.grow grows)).mono ?_
    rintro h'' known'' - rfl
    exact ⟨rfl, refused⟩

theorem writes_stays (bytes : Bytes) (idle : h.job = none) : Stays h known (writes bytes).run :=
  put_stays idle trivial fun _ => rfl

theorem writeTo_does (chunked : Bool) (fuel : Nat) (bare : h.Bare) (reads : h.reads = none)
    (given : Given known r) :
    Does h known (writeTo r chunked fuel).run fun h' _ result =>
      h' = h ∧ (h.late = true → result = .error (raises .closed)) := by
  induction fuel generalizing known with
  | zero => exact hangs_does _ ⟨bare.job, reads⟩
  | succ fuel ih =>
    refine refuses_bind (read_does 65536 bare reads given) fun _ chunk known' grows => ?_
    have given' := given.grow grows
    have again {known'' : Set Fact} (more : known' ⊆ known'') :
        Stays h known'' (writeTo r chunked fuel).run :=
      (ih (given'.grow more)).mono fun _ _ _ after => after.1
    cases chunked with
    | true =>
      split
      · exact writes_stays _ bare.job
      · refine stays_bind (writes_stays _ bare.job) fun _ known₁ one => ?_
        refine stays_bind (writes_stays _ bare.job) fun _ known₂ two => ?_
        refine stays_bind (writes_stays _ bare.job) fun _ known₃ three => ?_
        exact again (one.trans (two.trans three))
    | false =>
      split
      · exact rfl
      · exact stays_bind (writes_stays chunk bare.job) fun _ known₁ one => again one

theorem pauses_stays (idle : h.job = none) : Stays h known pauses.run :=
  put_stays idle trivial fun _ => rfl

theorem sends_stays (offset : Int64) (count : Int32) (idle : h.job = none) (here : .known f ∈ known) :
    Stays h known (sends f offset count).run := by
  have sent : Stays h known
      (some <$> fileRun f (.sends offset count) : Action (Option Int64)).run :=
    (fileRun_stays idle here rfl).try_map fun _ _ _ _ same => same
  refine mapped_stays (sent.try_catch (fun h' known' e _ same => ?_) fun _ _ _ _ same => same)
  split
  · exact same
  · exact same

theorem sendPiece_stays (offset cursor : Int64) (count : Int32) (kernel : Bool) (idle : h.job = none)
    (here : .known f ∈ known) (reads : h.reads = some r.state) :
    Stays h known (sendPiece r f offset cursor count kernel).run := by
  have advanced (n : Int64) {known' : Set Fact} : Stays h known' (advances r.state n) :=
    put_stays idle reads fun _ => rfl
  cases kernel with
  | true =>
    refine stays_bind (sends_stays _ _ idle here) fun sent known' grows => ?_
    cases sent with
    | none => exact rfl
    | some n =>
      refine stays_lift (advanced n) fun _ known'' more => ?_
      dsimp only
      split
      · exact stays_bind (pauses_stays idle) fun _ _ _ => rfl
      · exact rfl
  | false =>
    refine stays_bind (mapped_stays (fileRun_stays idle here rfl)) fun chunk known' grows => ?_
    refine stays_bind (writes_stays chunk idle) fun _ known'' more => ?_
    exact stays_lift (advanced _) fun _ _ _ => rfl

theorem sendLoop_stays (offset length : Int64) (fuel : Nat) (kernel : Bool) (free : h.job = none)
    (here : .known f ∈ known) (there : .present r.state ∈ known) (reads : h.reads = some r.state) :
    Stays h known (sendLoop r f offset length fuel kernel).run := by
  induction fuel generalizing known kernel with
  | zero => exact ⟨⟨free, trivial⟩, fun _ never => never.elim⟩
  | succ fuel ih =>
    refine stays_lift (put_stays free there fun _ => rfl) fun cursor known' grows => ?_
    split
    · refine stays_lift (put_stays free (grows there) fun _ => rfl) fun isStopped known'' more => ?_
      have later := grows.trans more
      split
      · exact rfl
      · refine stays_bind (sendPiece_stays _ _ _ kernel free (later here) reads)
          fun kernel _ last => stays_bind (pauses_stays free) fun _ _ rest => ?_
        exact ih kernel (rest (last (later here))) (rest (last (later there)))
    · exact rfl

theorem sendRead_does (fuel : Nat) (bare : h.Bare) (reads : h.reads = none) (given : Given known r) :
    Does h known (sendRead r fuel).run fun h' _ result =>
      h' = h ∧ (h.late = true → result = .error (raises .closed)) := by
  induction fuel generalizing known with
  | zero => exact hangs_does _ ⟨bare.job, reads⟩
  | succ fuel ih =>
    refine refuses_bind (read_does 65536 bare reads given) fun _ chunk known' grows => ?_
    split
    · refine stays_bind (writes_stays chunk bare.job) fun _ known'' more => ?_
      exact (ih (given.grow (grows.trans more))).mono fun _ _ _ after => after.1
    · exact rfl

theorem sendTo_does (fuel : Nat) (bare : h.Bare) (reads : h.reads = none) (given : Given known r) :
    Does h known (sendTo r fuel).run fun h' _ result =>
      h' = h ∧ (h.late = true → result = .error (raises .closed)) := by
  refine .put_bind ⟨bare.job, given.1⟩ fun body _ => ?_
  have given' : Given (known ∪ sourceFacts r.state body) r := given.grow Set.subset_union_left
  cases body with
  | fileRegion f offset length =>
    have opened : Fact.known f ∈ known ∪ sourceFacts r.state (.fileRegion f offset length) :=
      .inr (.inr (.inr ⟨f, rfl, rfl⟩))
    refine uses_does bare reads given' fun known' grows => ?_
    refine stays_bind (sendLoop_stays _ _ fuel true bare.job (grows opened)
      (given'.grow grows).1 rfl) fun _ known'' more => ?_
    exact mapped_stays (fileRun_stays bare.job (more (grows opened)) rfl)
  | empty => exact sendRead_does fuel bare reads given'
  | bytes content => exact sendRead_does fuel bare reads given'
  | listing stream charge => exact sendRead_does fuel bare reads given'

theorem closeAll_does (bodies : List BodyId) (bare : h.Bare) (reads : h.reads = none)
    (given : ∀ b ∈ bodies, .present b ∈ known ∧ .made b ∈ known) :
    Does h known (closeAll bodies) fun h' known' _ => h' = h ∧ ∀ b ∈ bodies, .settled b ∈ known' := by
  induction bodies generalizing known with
  | nil => exact ⟨rfl, fun _ none_ => by cases none_⟩
  | cons b rest ih =>
    obtain ⟨here, made⟩ := given b List.mem_cons_self
    refine (closeState_does ⟨bare.job, reads⟩ bare.files here (.inr made)).bind ?_
    rintro h' known' - grows ⟨rfl, settled⟩
    have same : h.settles b = h := by
      simp only [Held.settles, bare.owns, reduceCtorEq, if_false]
      rw [← bare.owns]
    rw [same]
    refine (ih fun c member => ?_).grows.mono ?_
    · obtain ⟨here, made⟩ := given c (List.mem_cons_of_mem b member)
      exact ⟨grows here, grows made⟩
    · rintro h'' known'' - ⟨more, stays, others⟩
      refine ⟨stays, fun c member => ?_⟩
      rcases List.mem_cons.mp member with rfl | later
      · exact more settled
      · exact others c later

theorem closeRuntime_does (free : h.Free) (planning : h.planning = false) (stopping : .stopping ∈ known)
    (cleared : .cleared ∈ known) (gone : .freedFile root ∈ known) :
    Does h known closeRuntime fun h' known' _ => h' = h ∧ .ended ∈ known' := by
  refine .put_bind ⟨free.job, stopping⟩ fun goesOn _ => ?_
  cases goesOn with
  | false => exact ⟨rfl, .inr ⟨rfl, rfl⟩⟩
  | true =>
    refine .put_bind ⟨free.job, free.reads, .inl stopping, planning⟩ fun _ _ => ?_
    exact .put ⟨free.job, .inl (.inl cleared), .inr rfl, .inl (.inl gone)⟩ fun _ _ => ⟨rfl, .inr rfl⟩

theorem closeEngine_does (bare : h.Bare) (reads : h.reads = none) (planning : h.planning = false)
    (here : .known root ∈ known) :
    Does h known closeEngine fun h' known' _ => h' = h ∧ .ended ∈ known' := by
  refine .put_bind ⟨bare.job, trivial⟩ fun _ _ => ?_
  refine .put_bind ⟨bare.job, reads, .inr rfl, planning⟩ fun _ _ => ?_
  refine .put_bind ⟨bare.job, .inr rfl⟩ fun bodies _ => ?_
  refine (closeAll_does bodies bare reads fun b member =>
    ⟨.inr (.inr ⟨b, member, .inl rfl⟩), .inr (.inr ⟨b, member, .inr rfl⟩)⟩).bind ?_
  rintro h' known' - grows ⟨rfl, settled⟩
  refine .put_bind ⟨bare.job, bodies, grows (.inr (.inl rfl)), settled⟩ fun _ _ => ?_
  refine (closeFile_does ⟨bare.job, reads⟩ (.inl (grows (.inl (.inl (.inl here)))))).bind ?_
  rintro h'' known'' - more ⟨rfl, gone⟩
  change Does (h'.without (some root)) _ _ _
  rw [without_none bare.files]
  exact closeRuntime_does ⟨bare.job, reads⟩ planning (more (.inl (grows (.inl (.inl (.inr rfl))))))
    (more (.inr rfl)) gone

end HttpServer.Shared
