import HttpServer.StaticPlan.Encodings
import HttpServer.StaticPlan.Siblings

set_option autoImplicit false

namespace HttpServer.StaticPlan

open Unicode Text HttpServer.Core Dialogue

-- The host has a file that the planner can take for the choice.
def servable (host : Host) (choice : Choice) : Option (Choice × File) :=
  match host (.opens choice.path) with
  | some f =>
      if f.kind = 1 ∧ (choice.encoding = some gzip → gzipMagic (host (.reads f 2)) = true) then
        some (choice, f)
      else none
  | none => none

def found (host : Host) (choices : List Choice) : Option (Choice × File) :=
  choices.findSome? (servable host)

/-- Where the host leads a run that has `choices` left: `d` is what the planner does after `past`,
and `left` holds of the events in which all of them are passed over. -/
inductive Led (p : Planner) (host : Host) (past : Past) (d missing : Step) (choices : List Choice)
    (left : Past → Prop) : Prop
  | changed (ends : ending host d = .changed)
  | encoded (choice : Choice) (file : File) (enc : Str)
      (encodes : Encodes p (past ++ (play host d).1) choice file enc)
  | plain (choice : Choice) (file : File) (identity : choice.encoding = none)
      (first : found host choices = some (choice, file))
      (ends : ending host d = ending host (p.serve file choice.represented none))
  | missed (events : Past) (none_found : found host choices = none) (passes : left events)
      (played : play host d = (events ++ (play host missing).1, (play host missing).2))

section

variable {p : Planner} {host : Host}

theorem Led.pass {past events : Past} {d rest missing : Step} {choice : Choice}
    {choices : List Choice} {left : Past → Prop}
    (led : Led p host (past ++ events) rest missing choices fun more => left (events ++ more))
    (skipped : servable host choice = none)
    (played : play host d = (events ++ (play host rest).1, (play host rest).2)) :
    Led p host past d missing (choice :: choices) left := by
  have same : found host (choice :: choices) = found host choices := by
    simp [found, skipped]
  have ends : ending host d = ending host rest := by simp [ending, played]
  cases led with
  | changed changed => exact .changed (ends.trans changed)
  | encoded taken file enc encodes =>
    apply Led.encoded taken file enc
    rwa [played, ← List.append_assoc]
  | plain taken file identity first answered =>
    exact .plain taken file identity (same.trans first) (ends.trans answered)
  | missed more none_found passes missed =>
    refine .missed (events ++ more) (same.trans none_found) passes ?_
    rw [played, missed, List.append_assoc]

theorem play_opens (path : Str) (next : Option File → Step) :
    play host (Step.opens path next) =
      (opened path (host (.opens path)) :: (play host (next (host (.opens path)))).1,
        (play host (next (host (.opens path)))).2) := rfl

theorem play_reads (file : File) (count : Int32) (next : Bytes → Step) :
    play host (Step.reads file count next) =
      (⟨.reads file count, host (.reads file count)⟩ ::
        (play host (next (host (.reads file count)))).1,
        (play host (next (host (.reads file count)))).2) := rfl

variable (host) in
theorem chooseFrom_led {prior : Past} {path : Str} {index : Bool} {missing : Step}
    (trying : Trying p prior path index missing) (choices : List Choice) (i : Nat) (more : Past)
    (rest_is : (p.representations path index).drop i = choices)
    (passes : Passes p ((p.representations path index).take i) 0 more) :
    Led p host (prior ++ more) (p.chooseFrom missing choices i) missing choices
      fun events => Passes p (p.representations path index) 0 (more ++ events) := by
  induction choices generalizing i more with
  | nil =>
    refine .missed [] rfl ?_ rfl
    rwa [List.append_nil, ← List.take_of_length_le (List.drop_eq_nil_iff.mp rest_is)]
  | cons choice rest ih =>
    have chosen : (p.representations path index)[i]? = some choice := by
      have first := congrArg (·[0]?) rest_is
      simpa using first
    have turn : Turn p (prior ++ more) path index missing i choice :=
      ⟨chosen, prior, more, rfl, trying, passes⟩
    have inside : i < (p.representations path index).length :=
      (List.getElem?_eq_some_iff.mp chosen).1
    have taken : (p.representations path index).take (i + 1) =
        (p.representations path index).take i ++ [choice] := by
      rw [List.take_add_one, chosen]
      rfl
    have skip (events : Past) (passed : Passes p ((p.representations path index).take i ++ [choice]) 0
        (more ++ events)) (skipped : servable host choice = none)
        (played : play host (p.chooseFrom missing (choice :: rest) i) =
          (events ++ (play host (p.chooseFrom missing rest (i + 1))).1,
            (play host (p.chooseFrom missing rest (i + 1))).2)) :
        Led p host (prior ++ more) (p.chooseFrom missing (choice :: rest) i) missing (choice :: rest)
          fun events => Passes p (p.representations path index) 0 (more ++ events) := by
      refine Led.pass ?_ skipped played
      have led := ih (i + 1) (more ++ events) (by rw [← List.tail_drop, rest_is, List.tail_cons])
        (by rwa [taken])
      simpa only [List.append_assoc] using led
    have unfolded : play host (p.chooseFrom missing (choice :: rest) i) = _ :=
      play_opens choice.path _
    cases answer : host (.opens choice.path) with
    | none =>
      rw [answer] at unfolded
      exact skip [_] (passes.deny choice (by simp [isRegular])) (by simp [servable, answer]) unfolded
    | some file =>
      rw [answer] at unfolded
      by_cases regular : file.kind = 1
      · by_cases compressed : choice.encoding = some gzip
        · simp only [regular, compressed, if_true, play_reads] at unfolded
          cases magic : gzipMagic (host (.reads file 2)) with
          | true =>
            simp only [magic, if_true] at unfolded
            refine .encoded choice file gzip ⟨regular, compressed, prior ++ more, _, path, index,
              missing, i, rfl, turn, ?_⟩
            rw [unfolded]
            exact .unzipped _ compressed magic
          | false =>
            simp only [magic, Bool.false_eq_true, if_false] at unfolded
            cases insists : p.insists i choice with
            | true =>
              rw [Planner.insists] at insists
              simp only [insists, if_true] at unfolded
              exact .changed (congrArg Prod.snd unfolded)
            | false =>
              have lenient := insists
              rw [Planner.insists] at insists
              simp only [insists, Bool.false_eq_true, if_false] at unfolded
              refine skip [_, _] (passes.misread regular compressed magic ?_)
                (by simp [servable, answer, compressed, magic]) unfolded
              rwa [List.length_take, Nat.min_eq_left inside.le, Nat.zero_add]
        · simp only [regular, compressed, if_true, if_false] at unfolded
          cases encoding : choice.encoding with
          | none =>
            rw [encoding] at unfolded
            refine .plain choice file encoding
              (by simp [found, servable, answer, regular, encoding]) ?_
            rw [ending, unfolded]
            rfl
          | some enc =>
            rw [encoding] at unfolded
            refine .encoded choice file enc ⟨regular, encoding, prior ++ more, _, path, index,
              missing, i, rfl, turn, ?_⟩
            rw [unfolded]
            exact .plain compressed
      · simp only [regular, if_false] at unfolded
        exact skip [_] (passes.deny choice (by simpa [isRegular] using regular))
          (by simp [servable, answer, regular]) unfolded

def plainChoices (c : Config) (path : Str) (index : Bool) : List Choice :=
  [⟨path, path, none⟩] ++ defaultChoices c path index

theorem found_plain (p : Planner) (host : Host) (path : Str) (index : Bool) :
    (∃ choice file, found host (p.representations path index) = some (choice, file) ∧
        choice.encoding ≠ none) ∨
      found host (p.representations path index) = found host (plainChoices p.config path index) := by
  have split : ∃ front, p.representations path index = front ++ plainChoices p.config path index ∧
      ∀ choice ∈ front, choice.encoding ≠ none := by
    refine ⟨_, by rw [Planner.representations, List.append_assoc]; rfl, ?_⟩
    intro choice member
    simp only [List.mem_append] at member
    rcases member with (forced | brotli) | zipped
    · unfold forcedChoices at forced
      split_ifs at forced <;> simp_all
    · split_ifs at brotli <;> simp_all
    · split_ifs at zipped <;> simp_all
  obtain ⟨front, same, encoded⟩ := split
  rw [same, found, List.findSome?_append]
  cases first : front.findSome? (servable host) with
  | none => exact Or.inr rfl
  | some result =>
    obtain ⟨choice, member, servable⟩ := List.exists_of_findSome?_eq_some first
    refine Or.inl ⟨result.1, result.2, rfl, ?_⟩
    have taken : result.1 = choice := by
      unfold HttpServer.StaticPlan.servable at servable
      cases answer : host (.opens choice.path) with
      | none => simp [answer] at servable
      | some file =>
        simp only [answer] at servable
        split_ifs at servable
        cases servable
        rfl
    rw [taken]
    exact encoded choice member

theorem plain_found {path : Str} {index : Bool} {result : Option (Choice × File)}
    (first : found host (p.representations path index) = result)
    (identity : ∀ choice file, result = some (choice, file) → choice.encoding = none) :
    found host (plainChoices p.config path index) = result := by
  rcases found_plain p host path index with
    ⟨choice, file, other, encoded⟩ | same
  · exact absurd (identity choice file (first.symm.trans other)) encoded
  · exact same.symm.trans first

end

def acceptEncoding : Str := str "accept-encoding"

-- The same headers, but for `Accept-Encoding` in any letter case.
def SameButAccept (one two : Headers) : Prop :=
  (one.entries.filter fun entry => toLower entry.1 != acceptEncoding) =
    two.entries.filter fun entry => toLower entry.1 != acceptEncoding

theorem find_filter {entries : List (Str × Str)} {name : Str} (other : toLower name ≠ acceptEncoding) :
    (entries.find? fun entry => toLower entry.1 == toLower name) =
      (entries.filter fun entry => toLower entry.1 != acceptEncoding).find?
        fun entry => toLower entry.1 == toLower name := by
  induction entries with
  | nil => rfl
  | cons entry rest ih =>
    by_cases accept : toLower entry.1 = acceptEncoding
    · have different : (toLower entry.1 == toLower name) = false :=
        beq_eq_false_iff_ne.mpr fun same => other (same.symm.trans accept)
      rw [List.find?_cons, different, List.filter_cons_of_neg (by simp [accept]), ih]
    · rw [List.filter_cons_of_pos (by simpa using accept), List.find?_cons, List.find?_cons, ih]

theorem SameButAccept.find {one two : Headers} (same : SameButAccept one two) {name : Str}
    (other : toLower name ≠ acceptEncoding) :
    findHeaderCaseInsensitive one name = findHeaderCaseInsensitive two name := by
  rw [findHeaderCaseInsensitive, findHeaderCaseInsensitive, find_filter other, same,
    ← find_filter other]

section

variable {host : Host} {config : Config} {meth : Method} {target : Str} {one two : Headers}
  {mime : MimeRegistry}

abbrev planned (config : Config) (meth : Method) (target : Str) (mime : MimeRegistry)
    (headers : Headers) : Planner :=
  ⟨config, ⟨meth, target, headers⟩, mime⟩

theorem header_same (same : SameButAccept one two) (name : Str)
    (other : toLower name ≠ acceptEncoding) :
    (planned config meth target mime one).header name =
      (planned config meth target mime two).header name :=
  same.find other

theorem policies_same (config : Config) (meth : Method) (target : Str) (same : SameButAccept one two) :
    evaluateSecurityPolicies config ⟨meth, target, one⟩ =
      evaluateSecurityPolicies config ⟨meth, target, two⟩ := by
  have host := same.find (by decide : toLower (str "host") ≠ acceptEncoding)
  have authorization := same.find (by decide : toLower (str "authorization") ≠ acceptEncoding)
  simp only [evaluateSecurityPolicies, hostRefused, basicAuthorized, host, authorization]

theorem fileReply_same (same : SameButAccept one two) (file : File) (path : Str)
    (encoding : Option Str) (sample : Option Bytes) :
    (planned config meth target mime one).fileReply file path encoding sample =
      (planned config meth target mime two).fileReply file path encoding sample := by
  have asked : (planned config meth target mime one).askedRange file =
      (planned config meth target mime two).askedRange file := by
    simp only [Planner.askedRange, header_same same (str "if-range") (by decide),
      header_same same (str "range") (by decide)]
  have unmodified : (planned config meth target mime one).unmodified file =
      (planned config meth target mime two).unmodified file := by
    simp only [Planner.unmodified, header_same same (str "if-none-match") (by decide),
      header_same same (str "if-modified-since") (by decide)]
    rfl
  rw [fileReply_eq, fileReply_eq, asked, unmodified]
  rfl

theorem fileResponse_same (same : SameButAccept one two) (file : File) (path : Str)
    (encoding : Option Str) (sample : Option Bytes) :
    (planned config meth target mime one).fileResponse file path encoding sample =
      (planned config meth target mime two).fileResponse file path encoding sample := by
  simp only [Planner.fileResponse, fileReply_same same]
  rfl

theorem serve_same (same : SameButAccept one two) (file : File) (path : Str)
    (encoding : Option Str) :
    (planned config meth target mime one).serve file path encoding =
      (planned config meth target mime two).serve file path encoding := by
  simp only [Planner.serve, fileResponse_same same]

theorem directoryMissing_same (same : SameButAccept one two) (path rawPath : Str)
    (query : Option Str) :
    (planned config meth target mime one).directoryMissing path rawPath query =
      (planned config meth target mime two).directoryMissing path rawPath query := by
  have listing : (planned config meth target mime one).listing path rawPath query =
      (planned config meth target mime two).listing path rawPath query := by
    simp only [Planner.listing, header_same same (str "host") (by decide)]
    rfl
  simp only [Planner.directoryMissing, listing]
  rfl

theorem resolves_same (same : SameButAccept one two) {path : Str}
    (resolves : (planned config meth target mime one).Resolves path) :
    (planned config meth target mime two).Resolves path :=
  ⟨(policies_same _ _ _ same).symm.trans resolves.policy, resolves.method, resolves.robots,
    resolves.resolved⟩

end

/-- Two runs of one host end alike, unless one of them ends in an encoded file or is aborted. -/
inductive Agree (host : Host) (p q : Planner) (past past' : Past) (d d' : Step) : Prop
  | first (choice : Choice) (file : File) (enc : Str)
      (encodes : Encodes p (past ++ (play host d).1) choice file enc)
  | second (choice : Choice) (file : File) (enc : Str)
      (encodes : Encodes q (past' ++ (play host d').1) choice file enc)
  | changed (ends : ending host d = .changed ∨ ending host d' = .changed)
  | same (ends : ending host d = ending host d')

section

variable {host : Host} {p q : Planner} {past past' : Past}

theorem Agree.after {events events' : Past} {d d' rest rest' : Step}
    (agree : Agree host p q (past ++ events) (past' ++ events') rest rest')
    (played : play host d = (events ++ (play host rest).1, (play host rest).2))
    (played' : play host d' = (events' ++ (play host rest').1, (play host rest').2)) :
    Agree host p q past past' d d' := by
  have ends : ending host d = ending host rest := by simp [ending, played]
  have ends' : ending host d' = ending host rest' := by simp [ending, played']
  cases agree with
  | first choice file enc encodes =>
    apply Agree.first choice file enc
    rwa [played, ← List.append_assoc]
  | second choice file enc encodes =>
    apply Agree.second choice file enc
    rwa [played', ← List.append_assoc]
  | changed changed => exact .changed (by rwa [ends, ends'])
  | same same => exact .same (by rw [ends, ends', same])

theorem agree_opens {path : Str} {next next' : Option File → Step}
    (agree : Agree host p q (past ++ [opened path (host (.opens path))])
      (past' ++ [opened path (host (.opens path))]) (next (host (.opens path)))
      (next' (host (.opens path)))) :
    Agree host p q past past' (Step.opens path next) (Step.opens path next') :=
  agree.after (play_opens path next) (play_opens path next')

variable (host) in
theorem choose_led {prior : Past} {path : Str} {index : Bool} {missing : Step}
    (trying : Trying p prior path index missing) :
    Led p host prior (p.choose (p.representations path index) missing) missing
      (p.representations path index) fun events => Passes p (p.representations path index) 0 events := by
  have led := chooseFrom_led host trying (p.representations path index) 0 [] rfl (.start 0)
  simp only [List.append_nil, List.nil_append] at led
  exact led

theorem choose_agree {path : Str} {index : Bool} {missing missing' : Step}
    (trying : Trying p past path index missing) (trying' : Trying q past' path index missing')
    (config : q.config = p.config)
    (serves : ∀ file path, p.serve file path none = q.serve file path none)
    (otherwise : ∀ more more', Passes p (p.representations path index) 0 more →
      Passes q (q.representations path index) 0 more' →
      Agree host p q (past ++ more) (past' ++ more') missing missing') :
    Agree host p q past past' (p.choose (p.representations path index) missing)
      (q.choose (q.representations path index) missing') := by
  have led := choose_led host trying
  have led' := choose_led host trying'
  have plain {result : Option (Choice × File)}
      (first : found host (p.representations path index) = result)
      (identity : ∀ choice file, result = some (choice, file) → choice.encoding = none) :
      found host (plainChoices p.config path index) = result :=
    plain_found first identity
  have plain' {result : Option (Choice × File)}
      (first : found host (q.representations path index) = result)
      (identity : ∀ choice file, result = some (choice, file) → choice.encoding = none) :
      found host (plainChoices p.config path index) = result := by
    rw [← config]
    exact plain_found first identity
  cases led with
  | changed ends => exact .changed (Or.inl ends)
  | encoded choice file enc encodes => exact .first choice file enc encodes
  | plain choice file identity first ends =>
    have here := plain first (by rintro _ _ ⟨⟩; exact identity)
    cases led' with
    | changed ends => exact .changed (Or.inr ends)
    | encoded choice file enc encodes => exact .second choice file enc encodes
    | plain choice' file' identity' first' ends' =>
      have there := plain' first' (by rintro _ _ ⟨⟩; exact identity')
      cases here.symm.trans there
      exact .same (by rw [ends, ends', serves])
    | missed events none_found =>
      cases here.symm.trans (plain' none_found (by rintro _ _ ⟨⟩))
  | missed events none_found passes played =>
    have here := plain none_found (by rintro _ _ ⟨⟩)
    cases led' with
    | changed ends => exact .changed (Or.inr ends)
    | encoded choice file enc encodes => exact .second choice file enc encodes
    | plain choice' file' identity' first' ends' =>
      cases here.symm.trans (plain' first' (by rintro _ _ ⟨⟩; exact identity'))
    | missed events' none_found' passes' played' =>
      exact (otherwise events events' passes passes').after played played'

end

section

variable {host : Host} {config : Config} {meth : Method} {target : Str} {one two : Headers}
  {mime : MimeRegistry}

theorem fileMissing_agree (same : SameButAccept one two) {path : Str} {answer : Option File}
    {more more' : Past} (resolves : (planned config meth target mime one).Resolves path)
    (notDirectory : ¬isDirectory answer)
    (passes : Passes (planned config meth target mime one)
      ((planned config meth target mime one).representations path false) 0 more)
    (passes' : Passes (planned config meth target mime two)
      ((planned config meth target mime two).representations path false) 0 more') :
    Agree host (planned config meth target mime one) (planned config meth target mime two)
      (opened path answer :: more) (opened path answer :: more')
      (planned config meth target mime one).fileMissing
      (planned config meth target mime two).fileMissing := by
  by_cases fallback : config.hasFallback = true
  · simp only [Planner.fileMissing, fallback, if_true]
    exact choose_agree (.fallback path answer more resolves notDirectory passes fallback)
      (.fallback path answer more' (resolves_same same resolves) notDirectory passes' fallback) rfl
      (fun file path => serve_same same file path none) fun _ _ _ _ => .same rfl
  · simp only [Planner.fileMissing, fallback, Bool.false_eq_true, if_false]
    exact .same rfl

theorem directory_agree (same : SameButAccept one two) {path : Str} (answer : Option File)
    (resolves : (planned config meth target mime one).Resolves path)
    (directory : isDirectory answer) :
    Agree host (planned config meth target mime one) (planned config meth target mime two)
      [opened path answer] [opened path answer]
      ((planned config meth target mime one).directory path
        (planned config meth target mime one).rawPath (planned config meth target mime one).query)
      ((planned config meth target mime two).directory path
        (planned config meth target mime two).rawPath
        (planned config meth target mime two).query) := by
  by_cases slash : hasSuffix ((split target (unit '?')).headD []) (str "/") = true
  · by_cases index : config.autoIndex = true
    · simp only [Planner.directory, Planner.rawPath, slash, index, Bool.not_true,
        Bool.false_eq_true, if_false, if_true]
      refine choose_agree (.index path answer resolves directory index slash)
        (.index path answer (resolves_same same resolves) directory index slash) rfl
        (fun file path => serve_same same file path none) ?_
      intro more more' _ _
      exact .same (congrArg (ending host) (directoryMissing_same same _ _ _))
    · simp only [Planner.directory, Planner.rawPath, slash, index, Bool.not_true,
        Bool.false_eq_true, if_false]
      exact .same (congrArg (ending host) (directoryMissing_same same _ _ _))
  · simp only [Planner.directory, Planner.rawPath, slash, Bool.not_false, if_true]
    exact .same rfl

variable (host) in
theorem resolved_agree (same : SameButAccept one two) {path : Str}
    (resolves : (planned config meth target mime one).Resolves path) :
    Agree host (planned config meth target mime one) (planned config meth target mime two) [] []
      ((planned config meth target mime one).resolved path
        (planned config meth target mime one).rawPath (planned config meth target mime one).query)
      ((planned config meth target mime two).resolved path
        (planned config meth target mime two).rawPath
        (planned config meth target mime two).query) := by
  have direct (answer : Option File) (notDirectory : ¬isDirectory answer) :
      Agree host (planned config meth target mime one) (planned config meth target mime two)
        [opened path answer] [opened path answer]
        ((planned config meth target mime one).choose
          ((planned config meth target mime one).representations path false)
          (planned config meth target mime one).fileMissing)
        ((planned config meth target mime two).choose
          ((planned config meth target mime two).representations path false)
          (planned config meth target mime two).fileMissing) :=
    choose_agree (.direct path answer resolves notDirectory)
      (.direct path answer (resolves_same same resolves) notDirectory) rfl
      (fun file path => serve_same same file path none)
      fun _ _ passes passes' => fileMissing_agree same resolves notDirectory passes passes'
  apply agree_opens
  cases answer : host (.opens path) with
  | none => exact direct none (by simp [isDirectory])
  | some file =>
    by_cases directory : file.kind = 2
    · simp only [directory, if_true]
      exact directory_agree same (some file) resolves directory
    · simp only [directory, if_false]
      exact direct (some file) (by simpa [isDirectory] using directory)

-- Where no path is named, the headers play no other part.
theorem files_same (policy : evaluateSecurityPolicies config ⟨meth, target, one⟩ = some .proceed)
    (method : meth = .get ∨ meth = .head)
    (unnamed : ¬∃ path, (planned config meth target mime one).Resolves path) :
    (planned config meth target mime one).files = (planned config meth target mime two).files := by
  by_cases robots :
    (config.robots && (split target (unit '?')).headD [] == str "/robots.txt") = true
  · simp only [Planner.files, robots, if_true]
    rfl
  · simp only [Planner.files, robots, Bool.false_eq_true, if_false]
    cases resolved : resolvePath config.root config.baseUrl target with
    | ok path => exact absurd ⟨path, policy, method, Bool.eq_false_iff.mpr robots, resolved⟩ unnamed
    | error e => cases e <;> rfl

variable (host config meth target mime) in
theorem start_agree (same : SameButAccept one two) :
    Agree host (planned config meth target mime one) (planned config meth target mime two) [] []
      (start config ⟨meth, target, one⟩ mime) (start config ⟨meth, target, two⟩ mime) := by
  by_cases named : ∃ path, (planned config meth target mime one).Resolves path
  · obtain ⟨path, resolves⟩ := named
    have agree := resolved_agree host same resolves
    rw [← start_resolves resolves, ← start_resolves (resolves_same same resolves)] at agree
    exact agree
  · apply Agree.same
    have policies := policies_same config meth target same
    unfold start
    rw [← policies]
    cases policy : evaluateSecurityPolicies config ⟨meth, target, one⟩ with
    | none => rfl
    | some decision =>
      cases decision with
      | unauthorized => rfl
      | forbidden => rfl
      | preflight => rfl
      | proceed =>
        cases meth with
        | get => exact congrArg (ending host) (files_same policy (Or.inl rfl) named)
        | head => exact congrArg (ending host) (files_same policy (Or.inr rfl) named)
        | other => rfl

end

def varyOf : Option Str → Option Str
  | some _ => some (str "Accept-Encoding")
  | none => none

theorem fileHeaders_vary (p : Planner) (file : File) (path : Str) (encoding : Option Str)
    (sample : Option Bytes) :
    (p.fileHeaders file path encoding sample).get (str "Vary") = varyOf encoding := by
  unfold Planner.fileHeaders
  cases encoding with
  | none =>
    apply OrderedMap.get_ofList_eq_none
    simp only [List.forall_mem_cons, List.not_mem_nil, false_imp_iff, implies_true, and_true]
    decide
  | some enc => exact OrderedMap.get_insert_self _ _ _

theorem notModified_vary (p : Planner) (file : File) (encoding : Option Str) :
    (p.notModified file encoding).headers.get (str "Vary") = varyOf encoding := by
  unfold Planner.notModified
  cases encoding with
  | none =>
    apply OrderedMap.get_ofList_eq_none
    simp only [List.forall_mem_cons, List.not_mem_nil, false_imp_iff, implies_true, and_true]
    decide
  | some enc => exact OrderedMap.get_insert_self _ _ _

theorem fileReply_vary (p : Planner) (file : File) (path : Str) (encoding : Option Str)
    (sample : Option Bytes) :
    (p.fileReply file path encoding sample).headers.get (str "Vary") = varyOf encoding := by
  have range : str "Vary" ≠ str "Content-Range" := by decide
  have length : str "Vary" ≠ str "Content-Length" := by decide
  have type : str "Vary" ≠ str "Content-Type" := by decide
  have headers := fileHeaders_vary p file path encoding sample
  rw [fileReply_eq]
  cases p.askedRange file with
  | satisfiable r =>
    dsimp only [Planner.partialReply]
    rw [OrderedMap.get_insert_ne _ _ length, OrderedMap.get_insert_ne _ _ range, headers]
  | notSatisfiable =>
    dsimp only [Planner.refusedReply]
    rw [OrderedMap.get_insert_ne _ _ type, OrderedMap.get_insert_ne _ _ length,
      OrderedMap.get_insert_ne _ _ range, headers]
  | notApplicable =>
    cases p.unmodified file with
    | true => exact notModified_vary p file encoding
    | false => exact headers

def Encoded (p : Planner) (past : Past) : Prop := ∃ choice file enc, Encodes p past choice file enc

-- The responses made from an encoded file, and no others, vary.
theorem vary_iff {p : Planner} {past : Past} {response : Response}
    (notCustom : NotCustom p.config (str "Vary"))
    (run : Run (start p.config p.request p.mime) past (.done (.responds response))) :
    fieldValues response.headers (str "Vary") = [str "Accept-Encoding"] ↔ Encoded p past := by
  constructor
  · intro varies
    obtain ⟨reply, answers, rfl⟩ := run_responds run
    have named : reply.headers.get (str "Vary") = some (str "Accept-Encoding") := by
      have listed : str "Accept-Encoding" ∈ (reply.headers.get (str "Vary")).toList := by
        rw [← fieldValues_sent answers notCustom (by decide) (by decide), varies]
        exact List.mem_singleton_self _
      simpa using listed
    obtain ⟨choice, file, sample, rfl, encodes⟩ := answers.taken notCustom (by decide) named
    rw [fileReply_vary] at named
    cases encoding : choice.encoding with
    | none => simp [encoding, varyOf] at named
    | some enc => exact ⟨choice, file, enc, encodes enc encoding⟩
  · rintro ⟨choice, file, enc, encodes⟩
    rw [encodes.sent run, fieldValues_sent encodes.answers notCustom (by decide) (by decide),
      fileReply_vary]
    rfl

theorem run_of_ending {host : Host} {d : Step} {outcome : Outcome}
    (ends : ending host d = outcome) : Run d (play host d).1 (.done outcome) :=
  ends ▸ play_run host d

/-- Responses that differ in what `Accept-Encoding` decides: one of them at least is an encoded
file's, and exactly those that are tell so. -/
theorem run_vary {host : Host} {config : Config} {meth : Method} {target : Str} {one two : Headers}
    {mime : MimeRegistry} {response response' : Response} (same : SameButAccept one two)
    (notCustom : NotCustom config (str "Vary"))
    (first : ending host (start config ⟨meth, target, one⟩ mime) = .responds response)
    (second : ending host (start config ⟨meth, target, two⟩ mime) = .responds response')
    (differ : response.body ≠ response'.body ∨
      fieldValues response.headers (str "Content-Encoding") ≠
        fieldValues response'.headers (str "Content-Encoding")) :
    (Encoded (planned config meth target mime one)
        (play host (start config ⟨meth, target, one⟩ mime)).1 ∨
      Encoded (planned config meth target mime two)
        (play host (start config ⟨meth, target, two⟩ mime)).1) ∧
    (fieldValues response.headers (str "Vary") = [str "Accept-Encoding"] ↔
      Encoded (planned config meth target mime one)
        (play host (start config ⟨meth, target, one⟩ mime)).1) ∧
    (fieldValues response'.headers (str "Vary") = [str "Accept-Encoding"] ↔
      Encoded (planned config meth target mime two)
        (play host (start config ⟨meth, target, two⟩ mime)).1) := by
  refine ⟨?_, vary_iff notCustom (run_of_ending first), vary_iff notCustom (run_of_ending second)⟩
  cases start_agree host config meth target mime same with
  | first choice file enc encodes => exact Or.inl ⟨choice, file, enc, encodes⟩
  | second choice file enc encodes => exact Or.inr ⟨choice, file, enc, encodes⟩
  | changed ends =>
    rcases ends with ends | ends
    · cases first.symm.trans ends
    · cases second.symm.trans ends
  | same ends =>
    have equal := (first.symm.trans ends).trans second
    cases equal
    simp at differ

def packedHost : Host
  | .opens path =>
      if path = str "/site/a.bin.gz" then some packed
      else if path = str "/site/a.bin" then some clip
      else none
  | .reads _ _ => [0x1F, 0x8B]
  | .lists _ => []

def packedAccept : Headers := OrderedMap.ofList [(str "accept-encoding", str "gzip")]

def packedWhole : Response where
  status := 200
  headers := OrderedMap.ofList
    [(str "Content-Type", str "application/octet-stream"), (str "Cache-Control", str "max-age=3600"),
      (str "Accept-Ranges", str "bytes"), (str "ETag", str "W/\"6-0\""),
      (str "Last-Modified", str "Thu, 01 Jan 1970 00:00:00 GMT"), (str "Content-Length", str "6"),
      (str "Content-Encoding", str "gzip"), (str "Vary", str "Accept-Encoding")]
  body := .fileRegion packed 0 6

def unpackedWhole : Response where
  status := 200
  headers := OrderedMap.ofList
    [(str "Content-Type", str "application/octet-stream"), (str "Cache-Control", str "max-age=3600"),
      (str "Accept-Ranges", str "bytes"), (str "ETag", str "W/\"11-0\""),
      (str "Last-Modified", str "Thu, 01 Jan 1970 00:00:00 GMT"), (str "Content-Length", str "11")]
  body := .fileRegion clip 0 11

theorem run_vary_packed :
    (Encoded (planned clipConfig .get (str "/a.bin") .new packedAccept)
        (play packedHost (start clipConfig ⟨.get, str "/a.bin", packedAccept⟩ .new)).1 ∨
      Encoded (planned clipConfig .get (str "/a.bin") .new ∅)
        (play packedHost (start clipConfig ⟨.get, str "/a.bin", ∅⟩ .new)).1) ∧
    (fieldValues packedWhole.headers (str "Vary") = [str "Accept-Encoding"] ↔
      Encoded (planned clipConfig .get (str "/a.bin") .new packedAccept)
        (play packedHost (start clipConfig ⟨.get, str "/a.bin", packedAccept⟩ .new)).1) ∧
    (fieldValues unpackedWhole.headers (str "Vary") = [str "Accept-Encoding"] ↔
      Encoded (planned clipConfig .get (str "/a.bin") .new ∅)
        (play packedHost (start clipConfig ⟨.get, str "/a.bin", ∅⟩ .new)).1) :=
  run_vary (by unfold SameButAccept; decide +kernel) (clipConfig_notCustom _) (by decide +kernel)
    (by decide +kernel) (Or.inl (by decide))

-- The file itself is sent without `Vary`, though its sibling would be sent with it.
theorem unpacked_without_vary : ¬∀ (host : Host) (config : Config) (meth : Method) (target : Str)
    (one two : Headers) (mime : MimeRegistry) (response response' : Response),
    SameButAccept one two →
    ending host (start config ⟨meth, target, one⟩ mime) = .responds response →
    ending host (start config ⟨meth, target, two⟩ mime) = .responds response' →
    (response.body ≠ response'.body ∨ fieldValues response.headers (str "Content-Encoding") ≠
      fieldValues response'.headers (str "Content-Encoding")) →
    fieldValues response.headers (str "Vary") = [str "Accept-Encoding"] ∧
      fieldValues response'.headers (str "Vary") = [str "Accept-Encoding"] := by
  intro always
  have both := always packedHost clipConfig .get (str "/a.bin") packedAccept ∅ .new packedWhole
    unpackedWhole (by unfold SameButAccept; decide +kernel) (by decide +kernel) (by decide +kernel)
    (Or.inl (by decide))
  exact absurd both.2 (by decide +kernel)

end HttpServer.StaticPlan
