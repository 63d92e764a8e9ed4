import HttpServer.Core.Security

set_option autoImplicit false

namespace HttpServer.Core

open Unicode Text

def fieldValues (headers : Headers) (name : Str) : List Str :=
  (headers.entries.filter fun entry => toLower entry.1 == toLower name).map Prod.snd

-- A header called `name` is spelled so.
def Spelled (headers : Headers) (name : Str) : Prop :=
  headers.Each fun key _ => toLower key = toLower name → key = name

theorem filter_key {entries : List (Str × Str)} (distinct : (entries.map Prod.fst).Nodup) (name : Str) :
    (entries.filter fun entry => entry.1 == name).map Prod.snd =
      (OrderedMap.lookup name entries).toList := by
  induction entries with
  | nil => rfl
  | cons entry rest ih =>
    obtain ⟨key, value⟩ := entry
    rw [List.map_cons, List.nodup_cons] at distinct
    by_cases same : key = name
    · subst same
      have absent : rest.filter (fun entry => entry.1 == key) = [] := by
        rw [List.filter_eq_nil_iff]
        intro entry member here
        apply distinct.1
        exact List.mem_map.mpr ⟨entry, member, beq_iff_eq.mp here⟩
      simp [OrderedMap.lookup, absent]
    · simp [OrderedMap.lookup, same, ih distinct.2]

theorem fieldValues_eq {headers : Headers} {name : Str} (spelled : Spelled headers name) :
    fieldValues headers name = (headers.get name).toList := by
  have same : headers.entries.filter (fun entry => toLower entry.1 == toLower name) =
      headers.entries.filter fun entry => entry.1 == name := by
    apply List.filter_congr
    intro entry member
    have found := (OrderedMap.get_eq_some headers entry.1 entry.2).mpr member
    by_cases here : entry.1 = name
    · simp [here]
    · have other := mt (spelled entry.1 entry.2 found) here
      rw [beq_eq_false_iff_ne.mpr here, beq_eq_false_iff_ne.mpr other]
  rw [fieldValues, same]
  exact filter_key headers.nodup name

def securityNames : List Str :=
  ["Access-Control-Allow-Origin", "Access-Control-Allow-Headers", "Access-Control-Allow-Methods",
    "Cross-Origin-Opener-Policy", "Cross-Origin-Embedder-Policy",
    "Access-Control-Allow-Private-Network"].map str

-- No custom header is called `name`, in any letter case.
def NotCustom (c : Config) (name : Str) : Prop :=
  ∀ key ∈ c.customHeaders.keys, toLower key ≠ toLower name

section

variable {c : Config} {headers : Headers} {name : Str}

theorem NotCustom.absent (notCustom : NotCustom c name) : name ∉ c.customHeaders.keys :=
  fun custom => notCustom name custom rfl

theorem each_applySecurityHeaders {P : Str → Str → Prop} (known : headers.Each P)
    (security : ∀ key ∈ securityNames, ∀ value, P key value)
    (custom : ∀ entry ∈ c.customHeaders.entries, P entry.1 entry.2) (meth : Method) :
    (applySecurityHeaders headers c meth).Each P := by
  have cors : (corsHeaders c meth headers).Each P := by
    unfold corsHeaders
    dsimp only
    split_ifs
    · exact ((known.insert (security _ (by decide) _)).insert (security _ (by decide) _)).insert
        (security _ (by decide) _)
    · exact (known.insert (security _ (by decide) _)).insert (security _ (by decide) _)
    · exact known
  have coop : (coopHeaders c (corsHeaders c meth headers)).Each P := by
    unfold coopHeaders
    split_ifs
    · exact (cors.insert (security _ (by decide) _)).insert (security _ (by decide) _)
    · exact cors
  apply OrderedMap.Each.insertAll
  · unfold pnaHeaders
    split_ifs
    · exact (coop.insert (security _ (by decide) _)).mono fun _ _ => Or.inr
    · exact coop.mono fun _ _ => Or.inr
  · exact custom

theorem keys_applySecurityHeaders {names : Str → Prop} (known : headers.Each fun key _ => names key)
    (security : ∀ key ∈ securityNames, names key) (custom : ∀ key ∈ c.customHeaders.keys, names key)
    (meth : Method) : (applySecurityHeaders headers c meth).Each fun key _ => names key :=
  each_applySecurityHeaders known (fun key member _ => security key member)
    (fun entry member => custom entry.1 (List.mem_map_of_mem member)) meth

theorem get_insertAll (headers : Headers) (entries : List (Str × Str))
    (absent : name ∉ entries.map Prod.fst) :
    (entries.foldl (fun headers entry => headers.insert entry.1 entry.2) headers).get name =
      headers.get name := by
  induction entries generalizing headers with
  | nil => rfl
  | cons entry rest ih =>
    rw [List.map_cons, List.mem_cons, not_or] at absent
    rw [List.foldl_cons, ih _ absent.2, OrderedMap.get_insert_ne _ _ absent.1]

theorem get_insertAll_mem (headers : Headers) {entries : List (Str × Str)} {entry : Str × Str}
    (distinct : (entries.map Prod.fst).Nodup) (member : entry ∈ entries) :
    (entries.foldl (fun headers entry => headers.insert entry.1 entry.2) headers).get entry.1 =
      some entry.2 := by
  induction entries generalizing headers with
  | nil => cases member
  | cons first rest ih =>
    rw [List.map_cons, List.nodup_cons] at distinct
    rw [List.foldl_cons]
    rcases List.mem_cons.mp member with here | later
    · subst here
      rw [get_insertAll _ _ distinct.1, OrderedMap.get_insert_self]
    · exact ih _ distinct.2 later

theorem get_applySecurityHeaders (other : name ∉ securityNames) (absent : name ∉ c.customHeaders.keys)
    (meth : Method) : (applySecurityHeaders headers c meth).get name = headers.get name := by
  have ne {key : Str} (known : key ∈ securityNames) : name ≠ key :=
    fun same => other (same ▸ known)
  rw [applySecurityHeaders, get_insertAll _ _ absent]
  have pna (headers : Headers) : (pnaHeaders c headers).get name = headers.get name := by
    unfold pnaHeaders
    split_ifs
    · exact OrderedMap.get_insert_ne _ _ (ne (by decide))
    · rfl
  have coop (headers : Headers) : (coopHeaders c headers).get name = headers.get name := by
    unfold coopHeaders
    split_ifs
    · rw [OrderedMap.get_insert_ne _ _ (ne (by decide)),
        OrderedMap.get_insert_ne _ _ (ne (by decide))]
    · rfl
  rw [pna, coop]
  unfold corsHeaders
  dsimp only
  split_ifs
  · rw [OrderedMap.get_insert_ne _ _ (ne (by decide)), OrderedMap.get_insert_ne _ _ (ne (by decide)),
      OrderedMap.get_insert_ne _ _ (ne (by decide))]
  · rw [OrderedMap.get_insert_ne _ _ (ne (by decide)), OrderedMap.get_insert_ne _ _ (ne (by decide))]
  · rfl

-- The headers of a decision are the security headers, or those on top of a challenge.
theorem policy_headers {req : Request} {headers : Headers} {body : Bytes}
    (policy : evaluateSecurityPolicies c req = some (.unauthorized headers body) ∨
      evaluateSecurityPolicies c req = some (.forbidden headers body) ∨
      evaluateSecurityPolicies c req = some (.preflight headers)) :
    headers = applySecurityHeaders ∅ c req.meth ∨
      headers = applySecurityHeaders
        (OrderedMap.ofList [(str "WWW-Authenticate", str "Basic realm=\"\"")]) c req.meth := by
  unfold evaluateSecurityPolicies at policy
  by_cases refused : hostRefused c req = true
  · simp only [if_pos refused] at policy
    rcases policy with policy | policy | policy
    · cases policy
    · cases policy
      exact Or.inl rfl
    · cases policy
  · simp only [if_neg refused] at policy
    cases known : basicAuthorized c req with
    | none => simp [known] at policy
    | some authorized =>
      simp only [known, Option.bind_eq_bind, Option.bind_some] at policy
      split_ifs at policy
      · rcases policy with policy | policy | policy
        · cases policy
          exact Or.inr rfl
        · cases policy
        · cases policy
      · rcases policy with policy | policy | policy
        · cases policy
        · cases policy
        · cases policy
          exact Or.inl rfl
      · rcases policy with policy | policy | policy <;> cases policy

end

end HttpServer.Core
