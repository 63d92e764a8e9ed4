import HttpServer.FrontEnds.Agreement
import HttpServer.FrontEnds.Settings
import HttpServer.Library.Updates

set_option autoImplicit false

namespace HttpServer.FrontEnds

open Unicode Text HttpServer.Core
open Wasm (Json rejectedKeys)

def Key.Field : Key → Type
  | .root | .ioBackend | .address | .baseUrl => Str
  | .port | .cacheSeconds | .idleTimeoutMs => Int32
  | .defaultExt | .tryFiles | .cacheControl | .corsHeaders | .coopHeader | .certFile
  | .keyFile | .keyPassphrase | .caFile | .proxy | .proxyAll | .proxyConfig => Option Str
  | .spa | .gzip | .brotli | .forceContentEncoding | .autoIndex | .showDir | .showDotfiles
  | .dirOverrides404 | .weakEtags | .weakCompare | .cors | .coop | .pna | .robots
  | .handleError | .secure | .websocket | .silent | .logIp => Bool
  | .mimeTypes | .customHeaders | .proxyOptions => OrderedMap Str Str
  | .basicAuth => Option (Str × Str)
  | .hostWhitelist => List Str
  | .limits => RuntimeLimits

def FullConfig.settings (c : FullConfig) : (k : Key) → k.Field
  | .root => c.root
  | .ioBackend => c.ioBackend
  | .port => c.port
  | .address => c.address
  | .baseUrl => c.baseUrl
  | .defaultExt => c.defaultExt
  | .spa => c.spa
  | .tryFiles => c.tryFiles
  | .gzip => c.gzip
  | .brotli => c.brotli
  | .forceContentEncoding => c.forceContentEncoding
  | .autoIndex => c.autoIndex
  | .showDir => c.showDir
  | .showDotfiles => c.showDotfiles
  | .dirOverrides404 => c.dirOverrides404
  | .cacheSeconds => c.cacheSeconds
  | .cacheControl => c.cacheControl
  | .weakEtags => c.weakEtags
  | .weakCompare => c.weakCompare
  | .cors => c.cors
  | .corsHeaders => c.corsHeaders
  | .coop => c.coop
  | .coopHeader => c.coopHeader
  | .pna => c.pna
  | .robots => c.robots
  | .handleError => c.handleError
  | .idleTimeoutMs => c.idleTimeoutMs
  | .mimeTypes => c.mimeTypes
  | .customHeaders => c.customHeaders
  | .basicAuth => c.basicAuth
  | .hostWhitelist => c.hostWhitelist
  | .certFile => c.certFile
  | .keyFile => c.keyFile
  | .keyPassphrase => c.keyPassphrase
  | .caFile => c.caFile
  | .secure => c.secure
  | .proxy => c.proxy
  | .proxyAll => c.proxyAll
  | .proxyOptions => c.proxyOptions
  | .proxyConfig => c.proxyConfig
  | .websocket => c.websocket
  | .silent => c.silent
  | .logIp => c.logIp
  | .limits => c.limits

def FullConfig.ofSettings (s : (k : Key) → k.Field) : FullConfig where
  root := s .root
  ioBackend := s .ioBackend
  port := s .port
  address := s .address
  baseUrl := s .baseUrl
  defaultExt := s .defaultExt
  spa := s .spa
  tryFiles := s .tryFiles
  gzip := s .gzip
  brotli := s .brotli
  forceContentEncoding := s .forceContentEncoding
  autoIndex := s .autoIndex
  showDir := s .showDir
  showDotfiles := s .showDotfiles
  dirOverrides404 := s .dirOverrides404
  cacheSeconds := s .cacheSeconds
  cacheControl := s .cacheControl
  weakEtags := s .weakEtags
  weakCompare := s .weakCompare
  cors := s .cors
  corsHeaders := s .corsHeaders
  coop := s .coop
  coopHeader := s .coopHeader
  pna := s .pna
  robots := s .robots
  handleError := s .handleError
  idleTimeoutMs := s .idleTimeoutMs
  mimeTypes := s .mimeTypes
  customHeaders := s .customHeaders
  basicAuth := s .basicAuth
  hostWhitelist := s .hostWhitelist
  certFile := s .certFile
  keyFile := s .keyFile
  keyPassphrase := s .keyPassphrase
  caFile := s .caFile
  secure := s .secure
  proxy := s .proxy
  proxyAll := s .proxyAll
  proxyOptions := s .proxyOptions
  proxyConfig := s .proxyConfig
  websocket := s .websocket
  silent := s .silent
  logIp := s .logIp
  limits := s .limits

def Key.modify (k : Key) (change : k.Field → k.Field) (c : FullConfig) : FullConfig :=
  .ofSettings (Function.update c.settings k (change (c.settings k)))

theorem settings_ofSettings (s : (k : Key) → k.Field) : (FullConfig.ofSettings s).settings = s := by
  funext k
  cases k <;> rfl

theorem modify_comm {k k' : Key} (different : k ≠ k') (change : k.Field → k.Field)
    (change' : k'.Field → k'.Field) (c : FullConfig) :
    k'.modify change' (k.modify change c) = k.modify change (k'.modify change' c) := by
  unfold Key.modify
  rw [settings_ofSettings, settings_ofSettings, Function.update_of_ne different.symm,
    Function.update_of_ne different, Function.update_comm different]

variable (double : Str → Option Rat)

def constant {α : Type} (value : Decoded α) : Decoded (α → α) := (fun x _ => x) <$> value

def limitChange (field : Str × Json) : Decoded (RuntimeLimits → RuntimeLimits) := do
  let n ← integer double field.2
  if field.1 = str "file_workers" then return fun l => { l with fileWorkers := n }
  else if field.1 = str "queued_operations" then return fun l => { l with queuedOperations := n }
  else if field.1 = str "connections" then return fun l => { l with connections := n }
  else if field.1 = str "body_block_bytes" then return fun l => { l with bodyBlockBytes := n }
  else if field.1 = str "body_buffer_bytes" then return fun l => { l with bodyBufferBytes := n }
  else if field.1 = str "directory_metadata_bytes" then
    return fun l => { l with directoryMetadataBytes := n }
  else throw .invalidConfig

def limitChanges : List (Str × Json) → Decoded (RuntimeLimits → RuntimeLimits)
  | [] => pure id
  | field :: rest => do
      let first ← limitChange double field
      let later ← limitChanges rest
      return later ∘ first

-- Whether an object of limits can be read does not depend on the limits that are there.
def limitUpdate : Json → Decoded (RuntimeLimits → RuntimeLimits)
  | .object fields => limitChanges double fields
  | _ => throw .invalidConfig

def Key.read (v : Json) : (k : Key) → Decoded (k.Field → k.Field)
  | .root | .ioBackend | .address => constant <| string v
  | .port | .cacheSeconds | .idleTimeoutMs => constant <| integer double v
  | .baseUrl => constant <| normalizedBase v
  | .defaultExt | .tryFiles | .cacheControl | .corsHeaders
  | .coopHeader | .certFile | .keyFile | .keyPassphrase | .caFile
  | .proxy | .proxyAll | .proxyConfig => constant <| optionalString v
  | .spa | .gzip | .brotli | .forceContentEncoding | .autoIndex | .showDir
  | .showDotfiles | .dirOverrides404 | .weakEtags | .weakCompare | .cors
  | .coop | .pna | .robots | .handleError | .secure | .websocket | .silent
  | .logIp => constant <| boolean v
  | .mimeTypes | .customHeaders | .proxyOptions => constant <| stringMap v
  | .basicAuth => constant <| some <$> credentials v
  | .hostWhitelist => constant <| strings v
  | .limits => limitUpdate double v

theorem limitField_eq (l : RuntimeLimits) (field : Str × Json) :
    limitField double l field = (· l) <$> limitChange double field := by
  unfold limitField limitChange
  cases integer double field.2 with
  | error e => rfl
  | ok n =>
    simp only [bind, Except.bind]
    split_ifs <;> rfl

theorem limitFields_list (fields : List (Str × Json)) (l : RuntimeLimits) :
    fields.foldlM (limitField double) l = (· l) <$> limitChanges double fields := by
  induction fields generalizing l with
  | nil => rfl
  | cons field rest ih =>
    rw [List.foldlM_cons, limitField_eq, limitChanges]
    cases limitChange double field with
    | error e => rfl
    | ok first =>
      change rest.foldlM (limitField double) (first l) = _
      rw [ih]
      cases limitChanges double rest <;> rfl

theorem limitFields_eq (v : Json) (l : RuntimeLimits) :
    limitFields double v l = (· l) <$> limitUpdate double v := by
  cases v with
  | object fields => exact limitFields_list double fields l
  | _ => rfl

theorem change_eq {α : Type} (value : Decoded α) (place : (α → α) → FullConfig) (set : α → FullConfig)
    (same : ∀ x, set x = place fun _ => x) :
    (value >>= fun x => pure (set x)) = place <$> constant value := by
  cases value with
  | error e => rfl
  | ok x => exact congrArg Except.ok (same x)

section

variable {double} {key : Str} {k : Key} (named : keyOf key = some k)

include named

-- A key that is known changes its own setting and no other.
theorem cAbi_decodeKey (c : FullConfig) (v : Json) :
    CAbi.decodeKey double c key v = (k.modify · c) <$> k.read double v := by
  unfold CAbi.decodeKey
  rw [named]
  cases k
  case limits =>
    simp only [limitFields_eq, Key.read]
    cases limitUpdate double v <;> rfl
  case basicAuth =>
    simp only [Key.read]
    cases credentials v <;> rfl
  all_goals exact change_eq _ _ _ fun _ => rfl

theorem wasm_decodeKey (taken : key ∉ rejectedKeys) (other : k ≠ .ioBackend) (c : FullConfig)
    (v : Json) : Wasm.decodeKey double c key v = (k.modify · c) <$> k.read double v := by
  unfold Wasm.decodeKey
  rw [if_neg (mt List.contains_iff_mem.mp taken), named]
  cases k
  case ioBackend => exact absurd rfl other
  case limits =>
    simp only [limitFields_eq, Key.read]
    cases limitUpdate double v <;> rfl
  case basicAuth =>
    simp only [Key.read]
    cases credentials v <;> rfl
  all_goals exact change_eq _ _ _ fun _ => rfl

end

def Shared (key : Str) : Prop := ∃ k, keyOf key = some k ∧ k ≠ .ioBackend ∧ key ∉ rejectedKeys

theorem shared_decodeKey {key : Str} (shared : Shared key) (c : FullConfig) (v : Json) :
    Wasm.decodeKey double c key v = CAbi.decodeKey double c key v := by
  obtain ⟨k, named, other, taken⟩ := shared
  rw [cAbi_decodeKey named, wasm_decodeKey named taken other]

theorem mem_of_lookup {β : Type} {key : Str} {b : β} {entries : List (Str × β)}
    (found : OrderedMap.lookup key entries = some b) : (key, b) ∈ entries := by
  induction entries with
  | nil => cases found
  | cons entry rest ih =>
    by_cases here : entry.1 = key
    · simp only [OrderedMap.lookup, here, if_true, Option.some.injEq] at found
      rw [← found, ← here]
      exact List.mem_cons_self
    · simp only [OrderedMap.lookup, here, if_false] at found
      exact List.mem_cons_of_mem _ (ih found)

theorem keyOf_inj {key key' : Str} {k : Key} (named : keyOf key = some k)
    (named' : keyOf key' = some k) : key = key' := by
  have once : (keyNames.map Prod.snd).Nodup := by decide
  have same := List.inj_on_of_nodup_map once (mem_of_lookup named) (mem_of_lookup named') rfl
  exact congrArg Prod.fst same

def decodeStep (key : Str) (v : Json) (c : FullConfig) : Option FullConfig :=
  accepted (CAbi.decodeKey double c key v)

theorem decodeStep_comm : Updates.Commutes (decodeStep double) Shared := by
  rintro key key' v v' c ⟨k, named, -⟩ ⟨k', named', -⟩ different
  have other : k ≠ k' := by
    rintro rfl
    exact different (keyOf_inj named named')
  have step (key : Str) (k : Key) (named : keyOf key = some k) (v : Json) : decodeStep double key v =
      fun c => (accepted (k.read double v)).map (k.modify · c) := by
    funext c
    rw [decodeStep, cAbi_decodeKey named]
    cases k.read double v <;> rfl
  rw [step key k named, step key' k' named']
  cases accepted (k.read double v) with
  | none => cases accepted (k'.read double v') <;> rfl
  | some change =>
    cases accepted (k'.read double v') with
    | none => rfl
    | some change' => exact congrArg some (modify_comm other change change' c)

theorem foldlM_run (obj : List (Str × Json)) (c : FullConfig) :
    accepted (obj.foldlM (fun c field => CAbi.decodeKey double c field.1 field.2) c) =
      Updates.run (decodeStep double) obj c := by
  induction obj generalizing c with
  | nil => rfl
  | cons field rest ih =>
    rw [List.foldlM_cons, Updates.run, decodeStep]
    cases CAbi.decodeKey double c field.1 field.2 with
    | error e => rfl
    | ok next => exact ih next

theorem foldlM_shared {obj : List (Str × Json)} (shared : ∀ field ∈ obj, Shared field.1)
    (c : FullConfig) : obj.foldlM (fun c field => Wasm.decodeKey double c field.1 field.2) c =
      obj.foldlM (fun c field => CAbi.decodeKey double c field.1 field.2) c := by
  induction obj generalizing c with
  | nil => rfl
  | cons field rest ih =>
    rw [List.foldlM_cons, List.foldlM_cons, shared_decodeKey double (shared field List.mem_cons_self)]
    cases CAbi.decodeKey double c field.1 field.2 with
    | error e => rfl
    | ok next => exact ih (fun other member => shared other (List.mem_cons_of_mem _ member)) next

-- What both front ends still ask of a configuration that was read.
def finish (c : FullConfig) : Option FullConfig :=
  if hasTls c.toConfig || c.hasProxy || c.websocket then none
  else (accepted (validate c)).map fun _ => c

def decoded (obj : List (Str × Json)) : Option FullConfig :=
  (accepted (rootOf obj)).bind fun root =>
    (Updates.run (decodeStep double) obj (.of (.middlewareDefault root))).bind finish

theorem accepted_bind {α β : Type} (x : Decoded α) (rest : α → Decoded β) :
    accepted (x >>= rest) = (accepted x).bind fun a => accepted (rest a) := by
  cases x <;> rfl

theorem accepted_finish (refusal : DecodeError) (c : FullConfig) :
    accepted (do
      if hasTls c.toConfig || c.hasProxy || c.websocket then throw refusal
      validate c
      return c) = finish c := by
  unfold finish
  by_cases refused : (hasTls c.toConfig || c.hasProxy || c.websocket) = true
  · rw [if_pos refused, if_pos refused]
    rfl
  · rw [if_neg refused, if_neg refused]
    cases validate c <;> rfl

theorem decodeConfigValue_accepted (thin : Bool) (obj : List (Str × Json)) :
    accepted (CAbi.decodeConfigValue double (.object obj) thin false) = decoded double obj := by
  have engine : (thin || !false) = true := by simp
  unfold CAbi.decodeConfigValue decoded
  simp only [accepted_bind, foldlM_run, engine, Bool.true_and, Bool.false_eq_true, if_false,
    accepted_finish]

theorem decodeConfig_accepted {obj : List (Str × Json)} (shared : ∀ field ∈ obj, Shared field.1) :
    accepted (Wasm.decodeConfig double (.object obj)) = decoded double obj := by
  unfold Wasm.decodeConfig decoded
  simp only [accepted_bind, foldlM_shared double shared, foldlM_run, accepted_finish]

theorem rootOf_perm {obj other : OrderedMap Str Json} (perm : obj.entries.Perm other.entries) :
    rootOf obj.entries = rootOf other.entries := by
  have same : obj.get (str "root") = other.get (str "root") := by
    apply Option.ext
    intro v
    rw [OrderedMap.get_eq_some, OrderedMap.get_eq_some, perm.mem_iff]
  unfold rootOf
  unfold OrderedMap.get at same
  rw [same]

/-- Keys that both front ends take mean the same to both of them, in whatever order they stand. -/
theorem decoders_agree (thin : Bool) {obj other : OrderedMap Str Json}
    (shared : ∀ key ∈ obj.keys, Shared key) (perm : obj.entries.Perm other.entries) :
    accepted (Wasm.decodeConfig double (.object obj.entries)) =
        accepted (CAbi.decodeConfigValue double (.object obj.entries) thin false) ∧
      accepted (Wasm.decodeConfig double (.object other.entries)) =
        accepted (Wasm.decodeConfig double (.object obj.entries)) ∧
      accepted (CAbi.decodeConfigValue double (.object other.entries) thin false) =
        accepted (CAbi.decodeConfigValue double (.object obj.entries) thin false) := by
  have known : ∀ field ∈ obj.entries, Shared field.1 := fun field member =>
    shared field.1 (List.mem_map_of_mem member)
  have known' : ∀ field ∈ other.entries, Shared field.1 := fun field member =>
    known field (perm.mem_iff.mpr member)
  have order : decoded double other.entries = decoded double obj.entries := by
    unfold decoded
    rw [rootOf_perm perm]
    congr 1
    funext root
    rw [Updates.run_perm (decodeStep_comm double) perm obj.nodup known]
  rw [decodeConfig_accepted double known, decodeConfig_accepted double known',
    decodeConfigValue_accepted, decodeConfigValue_accepted]
  exact ⟨rfl, order, order⟩

def pageEntries : List (Str × Json) :=
  [(str "root", .string (str "public")), (str "spa", .bool true), (str "cache_seconds", .number (str "60"))]

def pages : OrderedMap Str Json := ⟨pageEntries, by decide⟩

def pagesReversed : OrderedMap Str Json := ⟨pageEntries.reverse, by decide⟩

def sixty (text : Str) : Option Rat := if text = str "60" then some 60 else none

theorem decoders_agree_pages :
    accepted (Wasm.decodeConfig sixty (.object pages.entries)) =
        accepted (CAbi.decodeConfigValue sixty (.object pages.entries) false false) ∧
      accepted (Wasm.decodeConfig sixty (.object pagesReversed.entries)) =
        accepted (Wasm.decodeConfig sixty (.object pages.entries)) ∧
      accepted (CAbi.decodeConfigValue sixty (.object pagesReversed.entries) false false) =
        accepted (CAbi.decodeConfigValue sixty (.object pages.entries) false false) := by
  refine decoders_agree sixty false ?_ (List.reverse_perm pageEntries).symm
  intro key member
  have keys : pages.keys = [str "root", str "spa", str "cache_seconds"] := rfl
  rw [keys] at member
  simp only [List.mem_cons, List.not_mem_nil, or_false] at member
  rcases member with rfl | rfl | rfl
  · exact ⟨.root, by decide, by decide, by decide⟩
  · exact ⟨.spa, by decide, by decide, by decide⟩
  · exact ⟨.cacheSeconds, by decide, by decide, by decide⟩

end HttpServer.FrontEnds
