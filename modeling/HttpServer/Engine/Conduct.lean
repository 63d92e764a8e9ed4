import HttpServer.Engine.Turns
import HttpServer.Library.MachineInt
import HttpServer.StaticPlan.Depth

set_option autoImplicit false

namespace HttpServer.Shared

open Unicode Text HttpServer.Core OrderedMap Dialogue Routines
open Engine (NativeError ServerError mapNativeError relative beneath)
open StaticPlan (ListingEntry Step)

variable {h : Held} {known : Set Fact} {f : FileId} {b : BodyId} {op : Op}

structure Held.Free (h : Held) : Prop where
  job : h.job = none
  reads : h.reads = none

section

variable {α : Type}

abbrev Does (h : Held) (known : Set Fact) (act : Talk α) (post : Held → Set Fact → α → Prop) : Prop :=
  Kept discipline post h known act

end

theorem afterJob_error (idle : h.job = none) (e : Failure) : h.afterJob op (.error e) = h := by
  have same : ({ h with job := none } : Held) = h := by rw [← idle]
  cases op <;> exact same

theorem afterJob_quiet (idle : h.job = none) (quiet : op.gives = false)
    (answer : Except Failure op.Value) : h.afterJob op answer = h := by
  have same : ({ h with job := none } : Held) = h := by rw [← idle]
  cases op with
  | opens relative => cases quiet
  | names budget => cases quiet
  | reads offset length => exact same
  | checks => exact same
  | sends offset length => exact same

theorem submits_does (idle : h.job = none) (here : .known f ∈ known)
    (gives : op.gives = true → h.planning = true) :
    Does h known (submits f op).run fun h' _ result =>
      h' = if result.isOk then { h with job := some f } else h := by
  refine Kept.map (Kept.put ⟨idle, here, gives⟩ fun answer _ => ?_) fun h' _ _ _ after => after
  cases answer <;> rfl

theorem fileRun_does (idle : h.job = none) (here : .known f ∈ known)
    (gives : op.gives = true → h.planning = true) :
    Does h known (fileRun f op).run fun h' known' result =>
      h.FitsJob op result ∧ h' = h.afterJob op result ∧ learnsJob op result ⊆ known' := by
  refine (submits_does idle here gives).try_bind ?_ ?_
  · rintro h' known' e - rfl
    rw [afterJob_error idle, learnsJob_error]
    exact ⟨by cases op <;> trivial, rfl, Set.empty_subset _⟩
  · rintro h' known' ⟨⟩ - rfl
    refine Kept.put ⟨rfl, gives⟩ fun answer fits => ⟨?_, ?_, Set.subset_union_right⟩
    · cases op <;> cases answer <;> exact fits
    · cases op <;> cases answer <;> rfl

theorem closeFile_does (free : h.Free) (here : .known f ∈ known) :
    Does h known (closeFile f) fun h' known' _ => h' = h.without (some f) ∧ .freedFile f ∈ known' :=
  .put_bind ⟨free.job, here⟩ fun _ _ => .put_bind ⟨free.job, free.reads, .inr rfl⟩ fun _ _ =>
    .put ⟨free.job, .inr rfl⟩ fun _ _ => ⟨rfl, .inr rfl⟩

def Held.holding (h : Held) (found : Option Found) : Held :=
  { h with files := (found.map Found.file).toList ++ h.files }

variable {config : Config}

theorem openFile_does (path : Str) (idle : h.job = none) (planning : h.planning = true)
    (here : .known root ∈ known) :
    Does h known (openFile config path).run fun h' known' result =>
      h' = h.holding result.toOption ∧ ∀ found, result = .ok found → .known found.file ∈ known' := by
  have refused (e : Failure) : Does h known (.done (.error e) : Talk (Except Failure Found))
      fun h' known' result => h' = h.holding result.toOption ∧
        ∀ found, result = .ok found → .known found.file ∈ known' :=
    ⟨rfl, fun _ failed => by cases failed⟩
  unfold openFile
  cases relative config path with
  | none => exact refused _
  | some relative =>
    by_cases safe : beneath relative = true
    · simp only [safe]
      refine (fileRun_does idle here fun _ => planning).mono fun h' known' result => ?_
      rintro ⟨-, rfl, learnt⟩
      cases result with
      | error e => exact ⟨afterJob_error idle e, fun _ failed => by cases failed⟩
      | ok found =>
        refine ⟨?_, fun other same => ?_⟩
        · change ({ h with job := none, files := found.file :: h.files } : Held) = _
          rw [← idle]
          rfl
        · cases same
          exact learnt rfl
    · simp only [safe]
      exact refused _

theorem openExisting_does (path : Str) (idle : h.job = none) (planning : h.planning = true)
    (here : .known root ∈ known) :
    Does h known (openExisting config path).run fun h' known' result =>
      h' = h.holding result.toOption.join ∧
        ∀ found, result = .ok (some found) → .known found.file ∈ known' := by
  have opens : Does h known (some <$> openFile config path : Action (Option Found)).run
      fun h' known' result => h' = h.holding result.toOption.join ∧
        ∀ found, result = .ok (some found) → .known found.file ∈ known' := by
    refine (openFile_does path idle planning here).try_map fun h' known' result _ => ?_
    rintro ⟨rfl, learnt⟩
    cases result with
    | error e => exact ⟨rfl, fun _ failed => by cases failed⟩
    | ok found => exact ⟨rfl, fun other same => by cases same; exact learnt _ rfl⟩
  refine opens.try_catch ?_ fun h' known' a _ after => after
  rintro h' known' e - ⟨rfl, -⟩
  split
  · exact ⟨rfl, fun _ failed => by cases failed⟩
  · exact ⟨rfl, fun _ failed => by cases failed⟩

/-- A call that has closed some of its files. -/
structure Held.Less (h h' : Held) : Prop where
  files : h'.files ⊆ h.files
  rest : h' = { h with files := h'.files }

theorem Held.Less.refl (h : Held) : h.Less h := ⟨fun _ => id, rfl⟩

section

variable {h' h'' : Held}

theorem Held.Less.trans (first : h.Less h') (second : h'.Less h'') : h.Less h'' where
  files := fun _ member => first.files (second.files member)
  rest := by rw [second.rest, first.rest]

theorem Held.Less.free (less : h.Less h') (free : h.Free) : h'.Free := by
  rw [less.rest]
  exact ⟨free.job, free.reads⟩

theorem Held.Less.planning (less : h.Less h') : h'.planning = h.planning := by rw [less.rest]

theorem Held.Less.directory (less : h.Less h') : h'.directory = h.directory := by rw [less.rest]

theorem Held.Less.without (h : Held) (f : Option FileId) : h.Less (h.without f) :=
  ⟨fun _ member => (List.mem_filter.mp member).1, rfl⟩

end

-- What is opened and closed again is not held.
theorem files_closed {h' : Held} {found : Found}
    (inside : h'.files ⊆ (h.holding (some found)).files) :
    (h'.without (some found.file)).files ⊆ h.files := by
  intro f member
  obtain ⟨held, other⟩ := List.mem_filter.mp member
  rcases List.mem_cons.mp (inside held) with rfl | old
  · simp at other
  · exact old

theorem Held.Less.closed {h' : Held} {found : Found} (less : (h.holding (some found)).Less h') :
    h.Less (h'.without (some found.file)) where
  files := files_closed less.files
  rest := by
    conv_lhs => rw [less.rest]
    rfl

theorem listEntries_does (path : Str) (names : List Str) (free : h.Free) (planning : h.planning = true)
    (here : .known root ∈ known) :
    Does h known (listEntries config path names).run fun h' _ _ => h.Less h' := by
  induction names generalizing h known with
  | nil => exact Held.Less.refl h
  | cons name rest ih =>
    unfold listEntries
    split
    · exact ih free planning here
    · refine (openExisting_does _ free.job planning here).try_bind ?_ ?_
      · rintro h' known' e - ⟨rfl, -⟩
        exact .refl h
      · rintro h' known' found grows ⟨rfl, learnt⟩
        cases found with
        | none => exact ih free planning (grows here)
        | some file =>
          have now : (h.holding (some file)).Free := ⟨free.job, free.reads⟩
          refine (closeFile_does now (learnt file rfl)).lift_bind ?_
          rintro h' known'' - more ⟨rfl, -⟩
          have less : h.Less ((h.holding (some file)).without (some file.file)) :=
            Held.Less.closed (.refl _)
          exact (ih (less.free free) (less.planning.trans planning) (more (grows here))).try_bind
            (fun h' _ _ _ rest => less.trans rest) fun h' _ _ _ rest => less.trans rest

/-- `charge` is what the call holds for its listings. -/
structure Listed (p p' : Planning) (h h' : Held) : Prop where
  plan : p' = { p with charge := p'.charge }
  rest : h' = { h with files := h'.files, directory := p'.charge.toInt }
  files : h'.files ⊆ h.files
  positive : 0 ≤ p'.charge.toInt

structure Charging (p : Planning) (h : Held) : Prop where
  free : h.Free
  planning : h.planning = true
  charge : h.directory = p.charge.toInt
  positive : 0 ≤ p.charge.toInt

section

variable {p p' p'' : Planning} {h' h'' : Held}

theorem Charging.refl (charging : Charging p h) : Listed p p h h where
  plan := rfl
  rest := by rw [← charging.charge]
  files := fun _ => id
  positive := charging.positive

theorem Charging.listed (charging : Charging p h) (listed : Listed p p' h h') : Charging p' h' := by
  refine ⟨?_, ?_, ?_, listed.positive⟩ <;> rw [listed.rest]
  · exact ⟨charging.free.job, charging.free.reads⟩
  · exact charging.planning

theorem Listed.trans (first : Listed p p' h h') (second : Listed p' p'' h' h'') :
    Listed p p'' h h'' where
  plan := by rw [second.plan, first.plan]
  rest := by rw [second.rest, first.rest]
  files := fun _ member => first.files (second.files member)
  positive := second.positive

theorem Charging.less (charging : Charging p h) (less : h.Less h') : Listed p p h h' where
  plan := rfl
  rest := by
    conv_lhs => rw [less.rest]
    rw [← charging.charge]
  files := less.files
  positive := charging.positive

theorem Charging.holding (charging : Charging p h) (found : Option Found) :
    Charging p (h.holding found) :=
  ⟨⟨charging.free.job, charging.free.reads⟩, charging.planning, charging.charge, charging.positive⟩

theorem Listed.closed {found : Found} (listed : Listed p p' (h.holding (some found)) h') :
    Listed p p' h (h'.without (some found.file)) where
  plan := listed.plan
  rest := by
    conv_lhs => rw [listed.rest]
    rfl
  files := files_closed listed.files
  positive := listed.positive

theorem Charging.add {charge : Int32} (charging : Charging p h) (positive : 0 ≤ charge.toInt)
    (enough : h.directory + charge.toInt ≤ 2147483647) :
    Listed p { p with charge := p.charge + charge } h
      { h with directory := h.directory + charge.toInt } := by
  have before := charging.charge
  have nonneg := charging.positive
  have sum : (p.charge + charge).toInt = p.charge.toInt + charge.toInt := by
    rw [MachineInt.add32] <;> omega
  refine ⟨rfl, ?_, fun _ => id, ?_⟩
  · rw [sum, before]
  · dsimp only
    omega

end

variable {p : Planning}

theorem listOpened_does (path : Str) (dir : FileId) (charging : Charging p h)
    (opened : .known dir ∈ known) (here : .known root ∈ known) :
    Does h known (listOpened config path dir p) fun h' _ result => Listed p result.1 h h' := by
  refine (fileRun_does charging.free.job opened fun _ => charging.planning).bind ?_
  rintro h' known' result grows ⟨fits, rfl, -⟩
  cases result with
  | error e =>
    rw [afterJob_error charging.free.job]
    exact charging.refl
  | ok value =>
    obtain ⟨names, charge⟩ := value
    have now : ({ h with directory := h.directory + charge.toInt } : Held) =
        h.afterJob (.names config.limits.directoryMetadataBytes.toInt64) (.ok (names, charge)) := by
      change _ = ({ h with job := none, directory := h.directory + charge.toInt } : Held)
      rw [← charging.free.job]
    have added := charging.add fits.1 fits.2
    have after := charging.listed added
    rw [← now]
    refine (listEntries_does path names after.free after.planning (grows here)).bind ?_
    intro h' _ entries _ less
    exact added.trans (after.less less)

theorem listDirectory_does (request : Request) (path : Str) (charging : Charging p h)
    (here : .known root ∈ known) :
    Does h known (listDirectory config request path p) fun h' _ result => Listed p result.1 h h' := by
  refine Kept.put_bind ⟨charging.free.job, fun _ => charging.planning⟩ fun answer fits => ?_
  cases answer with
  | error e => exact charging.refl
  | ok _ =>
    have added := charging.add fits.1 fits.2
    have after := charging.listed added
    refine (openFile_does path after.free.job after.planning (.inl here)).bind ?_
    rintro h' known' result grows ⟨rfl, learnt⟩
    cases result with
    | error e => exact added
    | ok dir =>
      have holding := after.holding (some dir)
      refine (listOpened_does path dir.file holding (learnt dir rfl) (grows (.inl here))).bind ?_
      rintro h' known'' result more listed
      refine (closeFile_does (holding.listed listed).free (more (learnt dir rfl))).bind ?_
      rintro h' _ - - ⟨rfl, -⟩
      exact added.trans listed.closed

theorem checkAll_does (files : List FileId) (free : h.Free) (here : ∀ f ∈ files, .known f ∈ known) :
    Does h known (checkAll files).run fun h' _ _ => h' = h := by
  induction files generalizing known with
  | nil => exact rfl
  | cons f rest ih =>
    refine (fileRun_does free.job (here f List.mem_cons_self) fun none_ => by cases none_).try_bind ?_ ?_
    · rintro h' known' e - ⟨-, rfl, -⟩
      exact afterJob_error free.job e
    · rintro h' known' answer grows ⟨-, rfl, -⟩
      rw [afterJob_quiet free.job rfl]
      exact ih fun g member => grows (here g (List.mem_cons_of_mem f member))

def planned : Except Failure PlanResult → PlanBody
  | .ok (.handled _ _ body) => body
  | _ => .empty

/-- Each file that the plan has opened has a token of its own. -/
structure Plans (p : Planning) (h : Held) (known : Set Fact) (n : Nat) : Prop
    extends Charging p h where
  files : ∀ f ∈ h.files, ∃ token, p.files.get token = some f
  opened : ∀ token f, p.files.get token = some f → .known f ∈ known
  base : .known root ∈ known
  next : p.nextToken = Int32.ofNat n
  tokens : ∀ token f, p.files.get token = some f → ∃ i < n, token = Int32.ofNat i
  retained : p.retained = -1
  listing : p.retainListing = false

structure PlanEnds (p : Planning) (h : Held) (known : Set Fact)
    (result : Except Failure PlanResult) : Prop extends Charging p h where
  files : ∀ f ∈ h.files, ∃ token, p.files.get token = some f
  opened : ∀ token f, p.files.get token = some f → .known f ∈ known
  retained : ∀ f, p.files.get p.retained = some f → (planned result).file? = some f
  source : ∀ f, (planned result).file? = some f → .known f ∈ known
  charged : (World.metadataCharge (planned result)).toInt =
    if p.retainListing then p.charge.toInt else 0

-- What has nothing to do with files and listings stays.
def Held.Steady (h h' : Held) : Prop := h' = { h with files := h'.files, directory := h'.directory }

theorem Held.Steady.trans {h' h'' : Held} (first : h.Steady h') (second : h'.Steady h'') :
    h.Steady h'' := by
  unfold Held.Steady at *
  rw [second, first]

theorem Listed.steady {p' : Planning} {h' : Held} (listed : Listed p p' h h') : h.Steady h' := by
  unfold Held.Steady
  rw [listed.rest]

variable {n : Nat} {result : Except Failure PlanResult}

theorem Plans.no_token (plans : Plans p h known n) (few : n ≤ 31) : p.files.get (-1) = none := by
  cases found : p.files.get (-1) with
  | none => rfl
  | some f =>
    obtain ⟨i, small, same⟩ := plans.tokens (-1) f found
    have largest : (-1 : Int32) = Int32.ofNat 4294967295 := by decide
    have absurd := key_inj (by omega) (by omega) (largest.symm.trans same)
    omega

theorem Plans.ends (plans : Plans p h known n) (few : n ≤ 31)
    (source : (planned result).file? = none) (charge : World.metadataCharge (planned result) = 0) :
    PlanEnds p h known result where
  toCharging := plans.toCharging
  files := plans.files
  opened := plans.opened
  retained f found := by
    rw [plans.retained, plans.no_token few] at found
    cases found
  source f mine := by
    rw [source] at mine
    cases mine
  charged := by
    rw [charge, plans.listing]
    rfl

theorem Plans.grow {known' : Set Fact} (plans : Plans p h known n) (grows : known ⊆ known') :
    Plans p h known' n where
  toCharging := plans.toCharging
  files := plans.files
  opened token f found := grows (plans.opened token f found)
  base := grows plans.base
  next := plans.next
  tokens := plans.tokens
  retained := plans.retained
  listing := plans.listing

theorem Plans.listed {p' : Planning} {h' : Held} (plans : Plans p h known n)
    (listed : Listed p p' h h') : Plans p' h' known n where
  toCharging := plans.toCharging.listed listed
  files f member := by
    obtain ⟨token, found⟩ := plans.files f (listed.files member)
    exact ⟨token, by rw [listed.plan]; exact found⟩
  opened token f found := plans.opened token f (by rw [listed.plan] at found; exact found)
  base := plans.base
  next := by
    rw [listed.plan]
    exact plans.next
  tokens token f found := plans.tokens token f (by rw [listed.plan] at found; exact found)
  retained := by
    rw [listed.plan]
    exact plans.retained
  listing := by
    rw [listed.plan]
    exact plans.listing

theorem Plans.holding {found : Found} (plans : Plans p h known n) (few : n ≤ 30)
    (learnt : .known found.file ∈ known) :
    Plans { p with files := p.files.insert p.nextToken found.file, nextToken := p.nextToken + 1 }
      (h.holding (some found)) known (n + 1) where
  toCharging := { plans.toCharging.holding (some found) with }
  files f member := by
    rcases List.mem_cons.mp member with rfl | old
    · exact ⟨p.nextToken, get_insert_self _ _ _⟩
    · obtain ⟨token, there⟩ := plans.files f old
      obtain ⟨i, small, same⟩ := plans.tokens token f there
      refine ⟨token, ?_⟩
      rwa [get_insert_ne]
      intro taken
      rw [plans.next, same] at taken
      have equal := key_inj (by omega) (by omega) taken
      omega
  opened token f there := by
    rcases get_insert_eq_some.mp there with ⟨-, rfl⟩ | ⟨-, before⟩
    · exact learnt
    · exact plans.opened token f before
  base := plans.base
  next := by
    rw [plans.next]
    exact (Int32.ofNat_add n 1).symm
  tokens token f there := by
    rcases get_insert_eq_some.mp there with ⟨rfl, -⟩ | ⟨-, before⟩
    · exact ⟨n, Nat.lt_succ_self n, plans.next⟩
    · obtain ⟨i, small, same⟩ := plans.tokens token f before
      exact ⟨i, by omega, same⟩
  retained := plans.retained
  listing := plans.listing

theorem hangs_does {α : Type} {post : Held → Set Fact → α → Prop} (a : α) (free : h.Free) :
    Does h known (hangs a) post :=
  ⟨⟨free.job, trivial⟩, fun _ never => never.elim⟩

theorem finishPlan_does (response : StaticPlan.Response) (plans : Plans p h known n) (few : n ≤ 31) :
    Does h known (finishPlan response p) fun h' known' result =>
      h' = h ∧ PlanEnds result.1 h' known' result.2 := by
  have values (f : FileId) (member : f ∈ p.files.values) : .known f ∈ known := by
    simp only [OrderedMap.values, List.mem_map, Prod.exists, exists_eq_right] at member
    obtain ⟨token, inside⟩ := member
    exact plans.opened token f ((get_eq_some _ _ _).mpr inside)
  refine (checkAll_does _ plans.free values).bind ?_
  rintro h' known' checked grows rfl
  have now := plans.grow grows
  cases checked with
  | error e => exact ⟨rfl, now.ends few rfl rfl⟩
  | ok _ =>
    dsimp only
    split
    · exact ⟨rfl, now.ends few rfl rfl⟩
    · exact ⟨rfl, now.ends few rfl rfl⟩
    · next file offset length _ =>
      cases found : p.files.get file.token with
      | none => exact hangs_does _ now.free
      | some f =>
        refine ⟨rfl, { now.toCharging with }, now.files, now.opened, fun g there => ?_, fun g same => ?_, ?_⟩
        · exact found.symm.trans there
        · cases same
          exact now.opened _ f found
        · dsimp only
          rw [now.listing]
          rfl
    · refine ⟨rfl, { now.toCharging with }, now.files, now.opened, fun g there => ?_, fun g same => ?_, rfl⟩
      · have none_ := now.no_token few
        rw [← now.retained] at none_
        exact absurd (none_.symm.trans there) (by simp)
      · cases same

theorem planSteps_does (request : Request) (step : Step) {limit : Nat} (plans : Plans p h known n)
    (few : AtMost limit step) (small : n + limit ≤ 31) :
    Does h known (planSteps config request step p) fun h' known' result =>
      h.Steady h' ∧ PlanEnds result.1 h' known' result.2 := by
  induction step generalizing p h known n limit with
  | done outcome =>
    cases outcome with
    | responds response =>
      refine (finishPlan_does response plans (by omega)).mono fun h' known' result => ?_
      rintro ⟨rfl, ends⟩
      exact ⟨rfl, ends⟩
    | next => exact ⟨rfl, plans.ends (by omega) rfl rfl⟩
    | changed => exact ⟨rfl, plans.ends (by omega) rfl rfl⟩
    | trap => exact hangs_does _ plans.free
  | ask query complete ih =>
    cases limit with
    | zero => exact few.elim
    | succ limit =>
      cases query with
      | opens path =>
        rw [planSteps]
        refine (openExisting_does path plans.free.job plans.planning plans.base).bind ?_
        rintro h' known' result grows ⟨rfl, learnt⟩
        have now := plans.grow grows
        rcases result with e | _ | found
        · exact ⟨rfl, now.ends (by omega) rfl rfl⟩
        · exact ih none now (few none) (by omega)
        · have opened : h.Steady (h.holding (some found)) := rfl
          refine (ih _ (now.holding (by omega) (learnt found rfl)) (few _) (by omega)).mono ?_
          exact fun h' known' result ends => ⟨opened.trans ends.1, ends.2⟩
      | reads file count =>
        rw [planSteps]
        cases found : p.files.get file.token with
        | none => exact hangs_does _ plans.free
        | some f =>
          refine (fileRun_does plans.free.job (plans.opened _ f found)
            fun none_ => by cases none_).bind ?_
          rintro h' known' result grows ⟨-, rfl, -⟩
          rw [afterJob_quiet plans.free.job rfl]
          have now := plans.grow grows
          cases result with
          | error e => exact ⟨rfl, now.ends (by omega) rfl rfl⟩
          | ok bytes => exact ih bytes now (few bytes) (by omega)
      | lists path =>
        rw [planSteps]
        refine (listDirectory_does request path plans.toCharging plans.base).bind ?_
        rintro h' known' ⟨p', result⟩ grows listed
        have now := (plans.listed listed).grow grows
        cases result with
        | error e => exact ⟨listed.steady, now.ends (by omega) rfl rfl⟩
        | ok entries =>
          refine (ih entries now (few entries) (by omega)).mono ?_
          exact fun h' known' result ends => ⟨listed.steady.trans ends.1, ends.2⟩

theorem closeOthers_does (retained : Int32) (entries : List (Int32 × FileId)) (free : h.Free)
    (opened : ∀ entry ∈ entries, .known entry.2 ∈ known) :
    Does h known (closeOthers retained entries) fun h' _ _ =>
      h.Less h' ∧ ∀ entry ∈ entries, entry.1 ≠ retained → entry.2 ∉ h'.files := by
  induction entries generalizing h known with
  | nil => exact ⟨.refl h, fun _ none_ => by cases none_⟩
  | cons entry rest ih =>
    obtain ⟨token, f⟩ := entry
    have later {h' : Held} {known' : Set Fact} (less : h.Less h') (grows : known ⊆ known')
        (gone : token ≠ retained → f ∉ h'.files) :
        Does h' known' (closeOthers retained rest) fun h'' _ _ => h.Less h'' ∧
          ∀ entry ∈ (token, f) :: rest, entry.1 ≠ retained → entry.2 ∉ h''.files := by
      refine (ih (less.free free) fun entry member =>
        grows (opened entry (List.mem_cons_of_mem _ member))).mono fun h'' _ _ ⟨more, others⟩ => ?_
      refine ⟨less.trans more, fun entry member other => ?_⟩
      rcases List.mem_cons.mp member with rfl | later
      · exact fun still => gone other (more.files still)
      · exact others entry later other
    rw [closeOthers]
    split
    · refine (closeFile_does free (opened _ List.mem_cons_self)).bind ?_
      rintro h' known' ⟨⟩ grows ⟨rfl, -⟩
      exact later (.without h (some f)) grows fun _ => by simp [Held.without]
    · next same => exact later (.refl h) subset_rfl fun other => absurd other same

/-- The call holds what the body that was planned needs. -/
structure Holds (h h' : Held) (known : Set Fact) (body : PlanBody) : Prop where
  rest : h' = { h with files := h'.files, directory := (World.metadataCharge body).toInt }
  files : ∀ f ∈ h'.files, body.file? = some f
  source : ∀ f, body.file? = some f → .known f ∈ known
  positive : 0 ≤ (World.metadataCharge body).toInt

theorem planRequest_does (mime : MimeRegistry) (request : Request) (free : h.Free)
    (planning : h.planning = true) (files : h.files = []) (directory : h.directory = 0)
    (here : .known root ∈ known) :
    Does h known (planRequest config mime request).run fun h' known' result =>
      Holds h h' known' (planned result) := by
  have start : Plans .start h known 0 := {
    free
    planning
    charge := directory
    positive := le_rfl
    files := fun f member => by
      rw [files] at member
      cases member
    opened := fun _ _ found => by cases found
    base := here
    next := rfl
    tokens := fun _ _ found => by cases found
    retained := rfl
    listing := rfl }
  refine (planSteps_does request (StaticPlan.start config request mime) start
    (StaticPlan.start_atMost config request mime) le_rfl).bind ?_
  rintro h' known' ⟨p, result⟩ grows ⟨steady, ends⟩
  dsimp only at steady ends
  refine (closeOthers_does p.retained p.files.entries ends.free fun entry member =>
    ends.opened entry.1 entry.2 ((get_eq_some _ _ _).mpr member)).bind ?_
  rintro h'' known'' ⟨⟩ more ⟨less, gone⟩
  have mine (f : FileId) (member : f ∈ h''.files) : (planned result).file? = some f := by
    obtain ⟨token, found⟩ := ends.files f (less.files member)
    by_cases kept : token = p.retained
    · exact ends.retained f (kept ▸ found)
    · exact absurd member (gone (token, f) ((get_eq_some _ _ _).mp found) kept)
  have source (f : FileId) (same : (planned result).file? = some f) : .known f ∈ known'' :=
    more (ends.source f same)
  have charge : h''.directory = p.charge.toInt := less.directory.trans ends.charge
  have same : h'' = { h with files := h''.files, directory := p.charge.toInt } := by
    conv_lhs => rw [less.rest, steady, ends.charge]
  cases listing : p.retainListing with
  | true =>
    simp only [Bool.not_true, Bool.false_eq_true, if_false]
    have charged := ends.charged
    rw [listing, if_pos rfl] at charged
    exact ⟨by rw [charged]; exact same, mine, source, by rw [charged]; exact ends.positive⟩
  | false =>
    simp only [Bool.not_false, if_true]
    have charged := ends.charged
    rw [listing, if_neg Bool.false_ne_true] at charged
    refine Kept.put_bind ⟨(less.free ends.free).job, ends.positive, charge.ge⟩ fun _ _ => ?_
    refine ⟨?_, mine, fun f same => .inl (source f same), charged.ge⟩
    rw [charged]
    change ({ h'' with directory := h''.directory + -p.charge.toInt } : Held) = _
    rw [charge, add_neg_cancel]
    conv_lhs => rw [same]
    rfl

theorem without_none (files : h.files = []) (f : Option FileId) : h.without f = h := by
  simp only [Held.without, files, List.filter_nil]
  rw [← files]

theorem closeState_does (free : h.Free) (files : h.files = []) (here : .present b ∈ known)
    (mine : h.owns = some b ∨ .made b ∈ known) :
    Does h known (closeState b) fun h' known' _ => h' = h.settles b ∧ .settled b ∈ known' := by
  have last {known' : Set Fact} (grows : known ⊆ known') (shut : .shut b ∈ known')
      (source : ∃ file, .source b file ∈ known' ∧ ∀ f, file = some f → .freedFile f ∈ known') :
      Does h known' (do awaits (.quiet b); settles b) fun h' known' _ =>
        h' = h.settles b ∧ .settled b ∈ known' := by
    obtain ⟨file, learnt, freed⟩ := source
    refine .put_bind ⟨free.job, free.reads, shut⟩ fun _ _ => ?_
    refine .put ⟨free.job, .inr rfl, mine.imp id fun made => .inl (grows made), file, .inl learnt,
      fun f same => .inl (freed f same)⟩ fun _ _ => ⟨rfl, .inr rfl⟩
  refine .put_bind ⟨free.job, here⟩ fun _ _ => .put_bind ⟨free.job, .inl here⟩ fun body _ => ?_
  have shut : Fact.shut b ∈ known ∪ {.shut b} ∪ sourceFacts b body := .inl (.inr rfl)
  have learnt : Fact.source b body.file? ∈ known ∪ {.shut b} ∪ sourceFacts b body :=
    .inr (.inr (.inl rfl))
  have grows : known ⊆ known ∪ {.shut b} ∪ sourceFacts b body := fun _ old => .inl (.inl old)
  cases body with
  | fileRegion f offset length =>
    refine (closeFile_does free (.inr (.inr (.inr ⟨f, rfl, rfl⟩)))).bind ?_
    rintro h' known' - more ⟨rfl, freed⟩
    rw [without_none files]
    refine last (grows.trans more) (more shut) ⟨some f, more learnt, ?_⟩
    rintro g ⟨⟩
    exact freed
  | empty => exact last grows shut ⟨none, learnt, fun _ same => by cases same⟩
  | bytes content => exact last grows shut ⟨none, learnt, fun _ same => by cases same⟩
  | listing stream charge => exact last grows shut ⟨none, learnt, fun _ same => by cases same⟩

-- Who has a response may use its body and its key.
def Given (known : Set Fact) (r : Response) : Prop :=
  .present r.state ∈ known ∧ .made r.state ∈ known ∧ .numbered r.id r.state ∈ known

theorem Given.grow {known' : Set Fact} {r : Response} (given : Given known r)
    (grows : known ⊆ known') : Given known' r :=
  ⟨grows given.1, grows given.2.1, grows given.2.2⟩

/-- A request that has been planned leaves nothing behind but its response. -/
structure Handled (h h' : Held) (known : Set Fact) (result : HandleResult) : Prop where
  rest : h' = { h with files := [], owns := none, directory := 0, body := 0 }
  given : ∀ r, result = .handled r → Given known r

theorem register_does (status : Int32) (headers : Headers) (body : PlanBody) (free : h.Free)
    (planning : h.planning = true) (owns : h.owns = none) (bytes : h.body = 0)
    (files : ∀ f ∈ h.files, body.file? = some f) (source : ∀ f, body.file? = some f → .known f ∈ known)
    (charge : h.directory = (World.metadataCharge body).toInt) (positive : 0 ≤ h.directory) :
    Does h known (register config status headers body) fun h' known' result =>
      Handled h h' known' result := by
  refine .put_bind ⟨free.job, planning, owns, charge ▸ positive, charge.ge, source⟩ fun b _ => ?_
  have moved : h.gives b body = { h with files := [], owns := some b, directory := 0 } := by
    have none_ : (h.without body.file?).files = [] := by
      refine List.filter_eq_nil_iff.mpr fun f member => ?_
      rw [files f member]
      simp
    change ({ h.without body.file? with
      owns := some b
      directory := h.directory - (World.metadataCharge body).toInt } : Held) = _
    rw [charge, sub_self]
    change ({ h with files := (h.without body.file?).files, owns := some b, directory := 0 } : Held) = _
    rw [none_]
  have free' : ({ h with files := [], owns := some b, directory := 0 } : Held).Free :=
    ⟨free.job, free.reads⟩
  have closes (e : ServerError) {known' : Set Fact} (here : .present b ∈ known') :
      Does { h with files := [], owns := some b, directory := 0 } known'
        (do closeState b; return HandleResult.error e) fun h' known' result =>
          Handled h h' known' result := by
    refine (closeState_does free' rfl here (.inl rfl)).bind ?_
    rintro h' known'' - - ⟨rfl, -⟩
    refine ⟨?_, fun _ failed => by cases failed⟩
    simp only [Held.settles, if_true]
    rw [← bytes]
  change Does (h.gives b body) _ _ _
  rw [moved]
  have present : Fact.present b ∈ known ∪ sourceFacts b body := .inr (.inl rfl)
  refine .put_bind ⟨free.job, trivial⟩ fun closing _ => ?_
  cases closing with
  | true => exact closes _ (.inl present)
  | false =>
    refine .put_bind ⟨free.job, fun directory => by cases directory⟩ fun answer fits => ?_
    cases answer with
    | error e => exact closes _ (.inl (.inl present))
    | ok _ =>
      have covered : (bodyCharge config body).toInt ≤ h.body + (bodyCharge config body).toInt := by
        rw [bytes, zero_add]
      refine .put_bind ⟨free.job, rfl, fits.1, covered⟩ fun id _ => ⟨?_, ?_⟩
      · change ({ h with
          files := []
          owns := none
          directory := 0
          body := h.body + (bodyCharge config body).toInt - (bodyCharge config body).toInt } : Held) = _
        rw [add_sub_cancel_right, bytes]
      · rintro r ⟨⟩
        exact ⟨.inl (.inl (.inl present)), .inr (.inl rfl), .inr (.inr rfl)⟩

theorem handlePlanned_does (mime : MimeRegistry) (request : Request) (free : h.Free)
    (planning : h.planning = true) (files : h.files = []) (owns : h.owns = none)
    (directory : h.directory = 0) (bytes : h.body = 0) (here : .known root ∈ known) :
    Does h known (handlePlanned config mime request) fun h' known' result =>
      Handled h h' known' result := by
  refine (planRequest_does mime request free planning files directory here).bind ?_
  rintro h' known' result grows ⟨rest, left, source, positive⟩
  have kept : h'.directory = (World.metadataCharge (planned result)).toInt := by rw [rest]
  have moved : h' = { h with files := h'.files, directory := h'.directory } := by
    rw [kept]
    exact rest
  have nothing (result : HandleResult) (other : ∀ r, result ≠ .handled r) (empty : h'.files = [])
      (none_ : h'.directory = 0) : Handled h h' known' result := by
    refine ⟨?_, fun r same => absurd same (other r)⟩
    rw [moved, empty, none_, ← owns, ← bytes]
  have unused (empty : planned result = .empty) : h'.files = [] ∧ h'.directory = 0 := by
    refine ⟨List.eq_nil_iff_forall_not_mem.mpr fun f member => ?_, ?_⟩
    · have source := left f member
      rw [empty] at source
      cases source
    · rw [kept, empty]
      rfl
  rcases result with e | ⟨status, headers, body⟩ | _
  · obtain ⟨empty, none_⟩ := unused rfl
    exact nothing _ (fun r same => by cases same) empty none_
  · refine (register_does status headers body (h := h') ?_ ?_ ?_ ?_ left source kept
      (kept ▸ positive)).mono fun h'' known'' result handled => ⟨?_, handled.given⟩
    · rw [rest]; exact ⟨free.job, free.reads⟩
    · rw [rest]; exact planning
    · rw [rest]; exact owns
    · rw [rest]; exact bytes
    · rw [handled.rest, moved]
  · obtain ⟨empty, none_⟩ := unused rfl
    exact nothing _ (fun r same => by cases same) empty none_

theorem handle_does (mime : MimeRegistry) (request : Request) (late : Bool)
    (here : .known root ∈ known) :
    Does (.fresh late) known (handle config mime request) fun h' known' result =>
      h' = .fresh late ∧ (∀ r, result = .handled r → Given known' r) ∧
        (late = true → result = .error .closed) := by
  refine .put_bind ⟨rfl, rfl⟩ fun entered fits => ?_
  cases entered with
  | false => exact ⟨rfl, fun r same => (by cases same), fun _ => rfl⟩
  | true =>
    have began : late = false := by
      by_contra isLate
      have isLate : late = true := by simpa using isLate
      cases fits isLate
    subst began
    refine (handlePlanned_does mime request ⟨rfl, rfl⟩ rfl rfl rfl rfl rfl (.inl here)).bind ?_
    rintro h' known' result - ⟨rfl, given⟩
    exact .put_bind ⟨rfl, rfl, rfl, rfl, rfl⟩ fun _ _ =>
      ⟨rfl, fun r same => (given r same).grow Set.subset_union_left, fun none_ => by cases none_⟩

end HttpServer.Shared
