import HttpServer.Core.Config
import HttpServer.Core.Decimals
import HttpServer.Server.Proxy

set_option autoImplicit false

namespace HttpServer.Server

open Unicode Text HttpServer.Core

def schemeOf (url : Str) : Option (Str × Str) :=
  let url := plainScheme url
  if hasPrefix url (str "https://") then some (str "https", url.drop 8)
  else if hasPrefix url (str "http://") then some (str "http", url.drop 7)
  else none

def hostPort (rest : Str) : Str := (splitAuthority rest).1

def hostName (hostPort : Str) : Str :=
  match find hostPort (unit ':') with
  | some idx => hostPort.take idx
  | none => hostPort

def defaultPort (scheme : Str) : Nat := if scheme = str "https" then 443 else 80

def exactPort (scheme hostPort : Str) : Option Nat :=
  match find hostPort (unit ':') with
  | some idx => Numerals.nat? 10 (hostPort.drop (idx + 1))
  | none => some (defaultPort scheme)

def Usable (url : Str) : Prop :=
  ∃ parsed scheme rest, parseTargetUrl url = some parsed ∧ schemeOf url = some (scheme, rest) ∧
    parsed.host ≠ [] ∧ unit '?' ∉ parsed.host ∧ unit '/' ∉ parsed.host ∧ unit ':' ∉ parsed.host ∧
    ∃ port : Nat, exactPort scheme (hostPort rest) = some port ∧ parsed.port.toInt = port ∧
      1 ≤ port ∧ port ≤ 65535

def PortExact (url : Str) : Prop :=
  ∀ parsed, parseTargetUrl url = some parsed → ∃ scheme rest, schemeOf url = some (scheme, rest) ∧
    ∃ port : Nat, exactPort scheme (hostPort rest) = some port ∧ parsed.port.toInt = port

-- A host is named, no query follows it without a slash, and no port zero is written.
def Addressed (url : Str) : Prop :=
  ∀ scheme rest, schemeOf url = some (scheme, rest) →
    hostName (hostPort rest) ≠ [] ∧ unit '?' ∉ hostPort rest ∧
      exactPort scheme (hostPort rest) ≠ some 0

def keptPort (n : Nat) : Int := Int.bmod n (2 ^ 32)

-- No port that is too large comes back as another by wrapping.
def PortKept (url : Str) : Prop :=
  ∀ scheme rest port, schemeOf url = some (scheme, rest) →
    exactPort scheme (hostPort rest) = some port →
      port ≤ 65535 ∨ keptPort port ≤ 0 ∨ 65535 < keptPort port

theorem keptPort_eq (n : Nat) : (Int32.ofNat n).toInt = keptPort n := Int32.toInt_ofNat'

theorem keptPort_small {n : Nat} (small : n < 2147483648) : keptPort n = n := by
  rw [← keptPort_eq, Int32.toInt_ofNat_of_lt small]

theorem defaultPort_range (scheme : Str) : 80 ≤ defaultPort scheme ∧ defaultPort scheme ≤ 443 := by
  unfold defaultPort
  split_ifs <;> omega

def portDigit (p : Int32) (c : Nat) : Option Int32 :=
  if c < 0x30 || 0x39 < c then none else some (p * 10 + Int32.ofNat c - 48)

theorem portLoop_eq (digits : Str) : (codePoints digits).foldlM portDigit 0 =
    (Numerals.digits? 10 0 digits).map Int32.ofNat := by
  let loop (points : List Nat) (p : Int32) : Option Int32 := points.foldlM portDigit p
  change loop (codePoints digits) (Int32.ofNat 0) = _
  refine digitLoop_eq (fun n => rfl) ?_ ?_ digits 0
  · intro c rest n stray
    have refused : portDigit n c = none := by
      rw [portDigit, if_pos (by simpa using stray)]
    simp only [loop, List.foldlM_cons, refused]
    rfl
  · intro c rest value low high
    have taken : portDigit (Int32.ofNat value) c = some (Int32.ofNat (value * 10 + (c - 0x30))) := by
      rw [portDigit, if_neg (by simp; omega), pushDigit value low]
    simp only [loop, List.foldlM_cons, taken]
    rfl

-- A port is read where what 32 bits keep of it is one.
theorem portOf_eq_some {digits : Str} {p : Int32} : portOf digits = some p ↔
    ∃ n, Numerals.nat? 10 digits = some n ∧ Int32.ofNat n = p ∧ 0 < keptPort n ∧
      keptPort n ≤ 65535 := by
  have zero : (0 : Int32).toInt = 0 := by decide
  have most : (65535 : Int32).toInt = 65535 := by decide
  have parsed : portOf digits = ((codePoints digits).foldlM portDigit 0).bind fun p =>
      if p ≤ 0 || 65535 < p then none else some p := by
    unfold portOf
    change _ = (List.foldlM (fun (p : Int32) c => if c < 0x30 || 0x39 < c then none
      else some (p * 10 + Int32.ofNat c - 48)) 0 (codePoints digits)).bind _
    split <;> simp_all
  rw [parsed, portLoop_eq]
  by_cases empty : digits = []
  · subst empty
    simp [Numerals.digits?, Numerals.nat?]
  · rw [Numerals.nat?, if_neg empty]
    cases Numerals.digits? 10 0 digits with
    | none => simp
    | some n =>
      simp only [Option.map_some, Option.bind_some, Bool.or_eq_true, decide_eq_true_eq,
        Int32.le_iff_toInt_le, Int32.lt_iff_toInt_lt, zero, most, keptPort_eq, Option.some.injEq]
      split_ifs with outside
      · simp
        omega
      · simp
        omega

def decimalLoop : List Nat → Nat → Option Nat
  | [], n => some n
  | c :: rest, n => if c < 0x30 ∨ 0x39 < c then none else decimalLoop rest (n * 10 + (c - 0x30))

theorem decimalLoop_eq (digits : Str) :
    decimalLoop (codePoints digits) 0 = Numerals.digits? 10 0 digits := by
  have loop : decimalLoop (codePoints digits) (id 0) = (Numerals.digits? 10 0 digits).map id := by
    refine digitLoop_eq (fun n => rfl) ?_ ?_ digits 0
    · intro c rest n stray
      rw [decimalLoop, if_pos stray]
    · intro c rest value low high
      rw [id, decimalLoop, if_neg (by omega), id]
  simpa using loop

theorem decimalLoop_le {points : List Nat} {v n : Nat} (told : decimalLoop points v = some n) :
    v ≤ n := by
  induction points generalizing v with
  | nil => exact Nat.le_of_eq (Option.some.inj told)
  | cons c rest ih =>
    rw [decimalLoop] at told
    split_ifs at told
    have later := ih told
    omega

-- Below the bound nothing wraps, and past it the loop has stopped.
theorem proxyPort_loop (portStr : Str) (points : List Nat) {v : Nat} (small : v ≤ 65535) :
    proxyPort portStr points (Int32.ofNat v) = .ok () ↔
      ∃ n, decimalLoop points v = some n ∧ n ≤ 65535 := by
  induction points generalizing v with
  | nil => simp [proxyPort, decimalLoop, small, pure, Except.pure]
  | cons c rest ih =>
    rw [proxyPort, decimalLoop]
    by_cases stray : c < 0x30 ∨ 0x39 < c
    · simp [stray, throw, throwThe, MonadExceptOf.throw]
    · have most : (65535 : Int32).toInt = 65535 := by decide
      have next : Int32.ofNat v * 10 + (Int32.ofNat c - 48) =
          Int32.ofNat (v * 10 + (c - 0x30)) := by
        rw [← pushDigit v (by omega)]
        grind
      have value : (Int32.ofNat (v * 10 + (c - 0x30))).toInt = (v * 10 + (c - 0x30) : Nat) :=
        Int32.toInt_ofNat_of_lt (by omega)
      simp only [stray, if_false, next, Int32.lt_iff_toInt_lt, most, value]
      by_cases large : 65535 < v * 10 + (c - 0x30)
      · rw [if_pos (by omega)]
        simp only [throw, throwThe, MonadExceptOf.throw, reduceCtorEq, false_iff, not_exists, not_and]
        intro n told
        have later := decimalLoop_le told
        omega
      · rw [if_neg (by omega)]
        exact ih (by omega)

theorem proxyPort_ok (digits : Str) (some_ : digits ≠ []) :
    proxyPort digits (codePoints digits) 0 = .ok () ↔
      ∃ n, Numerals.nat? 10 digits = some n ∧ n ≤ 65535 := by
  have loop := proxyPort_loop digits (codePoints digits) (v := 0) (by omega)
  rw [decimalLoop_eq] at loop
  rw [Numerals.nat?, if_neg some_]
  exact loop

def PortAccepted (authority : Str) : Prop :=
  ∀ idx, find authority (unit ':') = some idx →
    ∃ n, Numerals.nat? 10 (authority.drop (idx + 1)) = some n ∧ n ≤ 65535

-- Where `validate_proxy_url` takes the authority to end.
def authority (rest : Str) : Str :=
  rest.take (match find rest (unit '/') with
    | some idx => idx
    | none => (find rest (unit '?')).getD rest.length)

def portChecked (authority : Str) : Checked Unit :=
  match find authority (unit ':') with
  | some colon =>
      let portStr := authority.drop (colon + 1)
      if portStr.length = 0 then
        throw (.invalidProxy (str "proxy URL missing port number after ':'"))
      else proxyPort portStr (codePoints portStr) 0
  | none => pure ()

theorem portChecked_ok (authority : Str) :
    portChecked authority = .ok () ↔ PortAccepted authority := by
  unfold portChecked PortAccepted
  cases find authority (unit ':') with
  | none => simp [pure, Except.pure]
  | some colon =>
    simp only [List.length_eq_zero_iff, Option.some.injEq, forall_eq']
    by_cases empty : authority.drop (colon + 1) = []
    · rw [if_pos empty, empty]
      simp [Numerals.nat?, throw, throwThe, MonadExceptOf.throw]
    · rw [if_neg empty, proxyPort_ok _ empty]

theorem validateProxyUrl_ok (url : Str) : validateProxyUrl url = .ok () ↔
    ∃ scheme rest, schemeOf url = some (scheme, rest) ∧ PortAccepted (authority rest) := by
  have split : validateProxyUrl url =
      if !hasPrefix (plainScheme url) (str "http://") &&
          !hasPrefix (plainScheme url) (str "https://") then
        throw (.invalidProxy (str "proxy URL must start with http:// or https://"))
      else portChecked (authority ((plainScheme url).drop
        (if hasPrefix (plainScheme url) (str "https://") then 8 else 7))) := rfl
  rw [split, schemeOf]
  cases hasPrefix (plainScheme url) (str "https://") with
  | true => simp [portChecked_ok]
  | false =>
    cases hasPrefix (plainScheme url) (str "http://") with
    | true => simp [portChecked_ok]
    | false => simp [throw, throwThe, MonadExceptOf.throw]

def hostAndPort (scheme hostPort : Str) : Option (Str × Int32) :=
  match find hostPort (unit ':') with
  | some idx => (portOf (hostPort.drop (idx + 1))).map (hostPort.take idx, ·)
  | none => some (hostPort, if scheme = str "https" then 443 else 80)

theorem hostAndPort_some {scheme hostPort host : Str} {port : Int32} :
    hostAndPort scheme hostPort = some (host, port) ↔ host = hostName hostPort ∧
      ∃ n, exactPort scheme hostPort = some n ∧ Int32.ofNat n = port ∧ 0 < keptPort n ∧
        keptPort n ≤ 65535 := by
  unfold hostAndPort hostName exactPort
  cases find hostPort (unit ':') with
  | none =>
    have range := defaultPort_range scheme
    have small := keptPort_small (n := defaultPort scheme) (by omega)
    have kept : 0 < keptPort (defaultPort scheme) ∧ keptPort (defaultPort scheme) ≤ 65535 := by
      omega
    have same : (if scheme = str "https" then 443 else 80 : Int32) =
        Int32.ofNat (defaultPort scheme) := by
      unfold defaultPort
      split_ifs <;> rfl
    simp only [same, Option.some.injEq, Prod.mk.injEq, exists_eq_left', kept, and_true]
    rw [eq_comm (a := hostPort)]
  | some idx =>
    simp only [Option.map_eq_some_iff, Prod.mk.injEq, ← portOf_eq_some]
    constructor
    · rintro ⟨p, parsed, rfl, rfl⟩
      exact ⟨rfl, parsed⟩
    · rintro ⟨rfl, parsed⟩
      exact ⟨port, parsed, rfl, rfl⟩

theorem parseTargetUrl_eq (url : Str) : parseTargetUrl url = (schemeOf url).bind fun parts =>
    if hostPort parts.2 = [] then none
    else (hostAndPort parts.1 (hostPort parts.2)).map fun address => {
      scheme := parts.1
      host := address.1
      port := address.2
      basePath := if (splitAuthority parts.2).2 = str "/" then [] else (splitAuthority parts.2).2 } := by
  have https : (str "https").length + 3 = 8 := by decide
  have http : (str "http").length + 3 = 7 := by decide
  have address (scheme rest : Str) (basePath : Str) :
      (match find (hostPort rest) (unit ':') with
        | some idx => ((portOf ((hostPort rest).drop (idx + 1))).map
            ((hostPort rest).take idx, ·)).bind fun a =>
              some (⟨scheme, a.1, a.2, basePath⟩ : TargetUrl)
        | none => some ⟨scheme, hostPort rest, if scheme = str "https" then 443 else 80, basePath⟩) =
      (hostAndPort scheme (hostPort rest)).map fun a => ⟨scheme, a.1, a.2, basePath⟩ := by
    unfold hostAndPort
    cases find (hostPort rest) (unit ':') with
    | none => rfl
    | some idx =>
      dsimp only
      cases portOf ((hostPort rest).drop (idx + 1)) <;> rfl
  unfold parseTargetUrl schemeOf
  cases first : hasPrefix (plainScheme url) (str "https://") with
  | true =>
    simp only [first, if_true, Option.bind_eq_bind, Option.bind_some, https]
    exact if_congr Iff.rfl rfl (address _ _ _)
  | false =>
    cases second : hasPrefix (plainScheme url) (str "http://") with
    | true =>
      simp only [first, second, Bool.false_eq_true, if_false, if_true, Option.bind_eq_bind,
        Option.bind_some, http]
      exact if_congr Iff.rfl rfl (address _ _ _)
    | false =>
      simp only [first, second, Bool.false_eq_true, if_false, Option.bind_eq_bind]
      rfl

theorem parseTargetUrl_some {url : Str} {parsed : TargetUrl}
    (read : parseTargetUrl url = some parsed) : ∃ scheme rest n,
      schemeOf url = some (scheme, rest) ∧ parsed.host = hostName (hostPort rest) ∧
      exactPort scheme (hostPort rest) = some n ∧ Int32.ofNat n = parsed.port ∧ 0 < keptPort n ∧
      keptPort n ≤ 65535 := by
  rw [parseTargetUrl_eq, Option.bind_eq_some_iff] at read
  obtain ⟨⟨scheme, rest⟩, split, read⟩ := read
  dsimp only at read
  by_cases named : hostPort rest = []
  · simp [named] at read
  rw [if_neg named] at read
  obtain ⟨⟨host, port⟩, address, rfl⟩ := Option.map_eq_some_iff.mp read
  obtain ⟨name, n, told, kept⟩ := hostAndPort_some.mp address
  exact ⟨scheme, rest, n, split, name, told, kept⟩

theorem parseTargetUrl_of {url scheme rest : Str} {n : Nat}
    (split : schemeOf url = some (scheme, rest)) (named : hostPort rest ≠ [])
    (told : exactPort scheme (hostPort rest) = some n) (low : 0 < keptPort n)
    (high : keptPort n ≤ 65535) : ∃ parsed, parseTargetUrl url = some parsed ∧
      parsed.host = hostName (hostPort rest) ∧ parsed.port = Int32.ofNat n := by
  have address : hostAndPort scheme (hostPort rest) = some (hostName (hostPort rest), Int32.ofNat n) :=
    hostAndPort_some.mpr ⟨rfl, n, told, rfl, low, high⟩
  rw [parseTargetUrl_eq, split, Option.bind_some]
  dsimp only
  rw [if_neg named, address]
  exact ⟨_, rfl, rfl, rfl⟩

theorem hostName_front (hostPort : Str) : hostName hostPort <+: hostPort := by
  unfold hostName
  split
  · exact List.take_prefix _ _
  · exact List.prefix_rfl

theorem no_slash (rest : Str) : unit '/' ∉ hostPort rest := by
  unfold hostPort splitAuthority
  cases found : find rest (unit '/') with
  | none => exact find_eq_none.mp found
  | some idx => exact (find_eq_some found).2

theorem no_colon (hostPort : Str) : unit ':' ∉ hostName hostPort := by
  unfold hostName
  cases found : find hostPort (unit ':') with
  | none => exact find_eq_none.mp found
  | some idx => exact (find_eq_some found).2

-- Both parsers see the same authority unless a query stands in it.
theorem authority_eq {rest : Str} (plain : unit '?' ∉ hostPort rest) :
    authority rest = hostPort rest := by
  unfold authority
  unfold hostPort splitAuthority at plain ⊢
  cases found : find rest (unit '/') with
  | some idx => rfl
  | none =>
    rw [found] at plain
    have none : find rest (unit '?') = none := find_eq_none.mpr plain
    simp [none]

-- What follows the colon of a port that is read has digits only.
theorem exactPort_plain {scheme hostPort : Str} {n : Nat}
    (told : exactPort scheme hostPort = some n) (plain : unit '?' ∉ hostName hostPort) :
    unit '?' ∉ hostPort := by
  unfold exactPort at told
  unfold hostName at plain
  cases found : find hostPort (unit ':') with
  | none => rwa [found] at plain
  | some idx =>
    rw [found] at told plain
    intro member
    rw [(find_eq_some found).1] at member
    rcases List.mem_append.mp member with front | back
    · exact plain front
    · rcases List.mem_cons.mp back with colon | digit
      · exact absurd colon (by decide)
      · exact absurd ((numeral_digits told).2 _ digit) (by decide)

theorem keptPort_iff {n : Nat} (low : 0 < keptPort n) (high : keptPort n ≤ 65535) :
    keptPort n = n ↔ n ≤ 65535 := by
  constructor
  · intro same
    omega
  · intro small
    exact keptPort_small (by omega)

theorem portExact_iff (url : Str) : PortExact url ↔ PortKept url := by
  constructor
  · intro exact scheme rest n split told
    by_cases low : 0 < keptPort n
    · by_cases high : keptPort n ≤ 65535
      · left
        by_cases named : hostPort rest = []
        · -- Without a host there is no port either, only that of the scheme.
          have default : defaultPort scheme = n := by simpa [exactPort, find, named] using told
          have range := defaultPort_range scheme
          omega
        · rw [← keptPort_iff low high]
          obtain ⟨parsed, read, -, port⟩ := parseTargetUrl_of split named told low high
          obtain ⟨scheme', rest', split', m, told', value⟩ := exact parsed read
          obtain ⟨rfl, rfl⟩ := Prod.mk.inj (Option.some.inj (split.symm.trans split'))
          obtain rfl := Option.some.inj (told.symm.trans told')
          calc keptPort n = (Int32.ofNat n).toInt := (keptPort_eq n).symm
            _ = parsed.port.toInt := congrArg Int32.toInt port.symm
            _ = n := value
      · exact Or.inr (Or.inr (by omega))
    · exact Or.inr (Or.inl (by omega))
  · intro kept parsed read
    obtain ⟨scheme, rest, n, split, -, told, port, low, high⟩ := parseTargetUrl_some read
    have small := kept scheme rest n split told
    refine ⟨scheme, rest, split, n, told, ?_⟩
    rw [← port, keptPort_eq]
    exact (keptPort_iff low high).mpr (by omega)

theorem Usable.addressed {url : Str} (usable : Usable url) : Addressed url := by
  obtain ⟨parsed, scheme, rest, read, split, named, plain, -, -, port, told, -, low, -⟩ := usable
  obtain ⟨scheme', rest', n, split', name, told', -⟩ := parseTargetUrl_some read
  obtain ⟨rfl, rfl⟩ := Prod.mk.inj (Option.some.inj (split.symm.trans split'))
  rw [name] at named plain
  intro other more here
  obtain ⟨rfl, rfl⟩ := Prod.mk.inj (Option.some.inj (split.symm.trans here))
  refine ⟨named, exactPort_plain told plain, ?_⟩
  rw [told, Ne, Option.some.injEq]
  omega

theorem Addressed.usable {url : Str} (accepted : validateProxyUrl url = .ok ())
    (addressed : Addressed url) : Usable url := by
  obtain ⟨scheme, rest, split, ports⟩ := (validateProxyUrl_ok url).mp accepted
  obtain ⟨named, plain, written⟩ := addressed scheme rest split
  rw [authority_eq plain] at ports
  have some_ : hostPort rest ≠ [] := by
    intro empty
    rw [empty] at named
    exact named rfl
  have told : ∃ n, exactPort scheme (hostPort rest) = some n ∧ 1 ≤ n ∧ n ≤ 65535 := by
    unfold exactPort at written ⊢
    cases found : find (hostPort rest) (unit ':') with
    | none =>
      have range := defaultPort_range scheme
      exact ⟨_, rfl, by omega⟩
    | some idx =>
      rw [found] at written
      obtain ⟨n, told, high⟩ := ports idx found
      have positive : n ≠ 0 := by
        rintro rfl
        exact written told
      exact ⟨n, told, by omega, high⟩
  obtain ⟨n, told, low, high⟩ := told
  have kept : keptPort n = n := keptPort_small (by omega)
  obtain ⟨parsed, read, name, port⟩ :=
    parseTargetUrl_of split some_ told (by omega) (by omega)
  refine ⟨parsed, scheme, rest, read, split, ?_, ?_, ?_, ?_, n, told, ?_, low, high⟩
  · rwa [name]
  · rw [name]
    exact fun member => plain ((hostName_front _).subset member)
  · rw [name]
    exact fun member => no_slash rest ((hostName_front _).subset member)
  · rw [name]
    exact no_colon _
  · rw [port, keptPort_eq, kept]

/-- An accepted address can be used where a host stands in it, no query without a slash and no port
zero; a port is read exactly where none wraps. -/
theorem proxyUrls_usable (url : Str) :
    ((validateProxyUrl url = .ok () → Usable url) ↔
      (validateProxyUrl url = .ok () → Addressed url)) ∧
    (PortExact url ↔ PortKept url) :=
  ⟨⟨fun usable accepted => (usable accepted).addressed,
    fun addressed accepted => (addressed accepted).usable accepted⟩, portExact_iff url⟩

theorem accepted_unusable :
    ¬(validateProxyUrl (str "http://h?x") = .ok () → Usable (str "http://h?x")) ∧
      ¬PortExact (str "http://h:4294967376") := by
  have accepted : (validateProxyUrl (str "http://h?x")).isOk = true := by decide +kernel
  have split : schemeOf (str "http://h:4294967376") = some (str "http", str "h:4294967376") := by
    decide +kernel
  have told : exactPort (str "http") (hostPort (str "h:4294967376")) = some 4294967376 := by
    decide +kernel
  have query : schemeOf (str "http://h?x") = some (str "http", str "h?x") := by decide +kernel
  constructor
  · intro usable
    have valid : validateProxyUrl (str "http://h?x") = .ok () := by
      cases run : validateProxyUrl (str "http://h?x") with
      | ok u => rfl
      | error e => simp [run, Except.isOk, Except.toBool] at accepted
    exact absurd ((usable valid).addressed _ _ query).2.1 (by decide +kernel)
  · intro exact
    have kept := (portExact_iff _).mp exact _ _ _ split told
    exact absurd kept (by decide)

end HttpServer.Server
