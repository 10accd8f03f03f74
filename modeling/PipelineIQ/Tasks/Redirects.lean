import PipelineIQ.Tasks.Webhooks

namespace PipelineIQ.Tasks.Redirects

open PipelineIQ.Tasks.Webhooks hiding postWithSafeRedirects

/-! ### The check of an address -/

/-- What `urlparse` finds in an address; `port` is `none` where its text is no port. -/
structure ParsedUrl where
  scheme : String
  hostname : Option String
  username : Option String
  password : Option String
  port : Option (Option Nat)

structure IpAddress where
  isPrivate : Bool
  isLoopback : Bool
  isLinkLocal : Bool
  isMulticast : Bool
  isReserved : Bool
  isUnspecified : Bool

def IpAddress.isPublic (ip : IpAddress) : Bool :=
  !(ip.isPrivate || ip.isLoopback || ip.isLinkLocal || ip.isMulticast || ip.isReserved ||
    ip.isUnspecified)

/-- The outside world during one call: what each look-up finds (`none` where it fails), what each
request comes back with, and the functions on addresses, which may raise. -/
structure Network (Bytes : Type) where
  urlparse : String → Except String ParsedUrl
  getaddrinfo : Nat → String → Nat → Option (List IpAddress)
  send : Nat → Method → String → Option Bytes → Except ClientError Response
  urljoin : String → String → Except String String

/-- How a check ends that an address does not pass. -/
inductive Refusal where
  | unsafeUrl (message : String)
  | raised (message : String)

def Refusal.posted : Refusal → Posted
  | .unsafeUrl message => .unsafeUrl message
  | .raised message => .raised (.other message)

def truthy (s : Option String) : Bool := s.any fun s => s != ""

/-- The check number `k` of a call; `none` where the address passes. -/
def validatePublicHttpUrl {Bytes : Type} (net : Network Bytes) (k : Nat) (url : String) :
    Option Refusal :=
  match net.urlparse url with
  | .error message => some (.raised message)
  | .ok parsed =>
    if parsed.scheme ≠ "http" ∧ parsed.scheme ≠ "https" then
      some (.unsafeUrl "URL must start with http:// or https://")
    else match parsed.hostname with
      | none | some "" => some (.unsafeUrl "URL must include a hostname")
      | some host =>
        if truthy parsed.username || truthy parsed.password then
          some (.unsafeUrl "URL credentials are not allowed")
        else match parsed.port with
          | none => some (.unsafeUrl "URL port is invalid")
          | some port =>
            if port.any fun n => !(1 ≤ n && n ≤ 65535) then some (.unsafeUrl "URL port is invalid")
            else match net.getaddrinfo k host
                (port.getD (if parsed.scheme = "https" then 443 else 80)) with
              | none | some [] => some (.unsafeUrl "URL hostname could not be resolved")
              | some addresses =>
                if addresses.all IpAddress.isPublic then none
                else some (.unsafeUrl "URL resolves to a private or reserved address")

/-! ### Requests with their history -/

/-- What a call does, in its order. -/
inductive Event (Bytes : Type) where
  | validate (url : String) (refusal : Option Refusal)
  | request (method : Method) (url : String) (body : Option Bytes)
  | response (statusCode : Nat)

variable {Bytes : Type}

/-- The loop from one hop on; a `GET` has no body. -/
def followHops (net : Network Bytes) (maxHops : Nat) :
    Nat → Nat → Method → Option Bytes → String → List (Event Bytes) × Posted
  | 0, _, _, _, _ => ([], .raised (.request s!"Too many redirects (>{maxHops} hops)"))
  | hops + 1, k, method, body, url =>
    let sent := if method = .POST then body else none
    let requested : Event Bytes := .request method url sent
    match net.send k method url sent with
    | .error e => ([requested], .raised e)
    | .ok resp =>
      let answered := [requested, .response resp.statusCode]
      if resp.statusCode ∉ redirectStatuses then (answered, .response resp)
      else match resp.location with
        | none | some "" => (answered, .response resp)
        | some location =>
          match net.urljoin url location with
          | .error message => (answered, .raised (.other message))
          | .ok url =>
            let checked := answered ++ [.validate url (validatePublicHttpUrl net (k + 1) url)]
            match validatePublicHttpUrl net (k + 1) url with
            | some refusal => (checked, refusal.posted)
            | none =>
              let switches := method = .POST ∧ resp.statusCode ∈ [301, 302, 303]
              let rest := followHops net maxHops hops (k + 1) (if switches then .GET else method)
                (if switches then none else body) url
              (checked ++ rest.1, rest.2)

def postWithSafeRedirects (net : Network Bytes) (url : String) (content : Bytes) (maxHops : Nat) :
    List (Event Bytes) × Posted :=
  let checked := [.validate url (validatePublicHttpUrl net 0 url)]
  match validatePublicHttpUrl net 0 url with
  | some refusal => (checked, refusal.posted)
  | none =>
    let rest := followHops net maxHops (maxHops + 1) 0 .POST (some content) url
    (checked ++ rest.1, rest.2)

def Event.isRequest : Event Bytes → Bool
  | .request .. => true
  | _ => false

/-- No request but one right behind a check that its address passed, at most so many requests, the
body only with `POST`, and not at all behind one of the statuses that turn it into a `GET`. -/
structure Safe (maxHops : Nat) (content : Bytes) (events : List (Event Bytes)) : Prop where
  validated : ∀ earlier method url body later,
    events = earlier ++ .request method url body :: later →
      ∃ before, earlier = before ++ [.validate url none]
  bounded : events.countP Event.isRequest ≤ maxHops + 1
  posted : ∀ method url body, .request method url (some body) ∈ events →
    method = .POST ∧ body = content
  dropped : ∀ earlier status later, events = earlier ++ .response status :: later →
    status ∈ [301, 302, 303] → ∀ method url body, .request method url body ∈ later →
      method = .GET ∧ body = none

/-! ### The walks of the loop -/

def sentBody (method : Method) (body : Option Bytes) : Option Bytes :=
  if method = .POST then body else none

/-- How a redirect with a status changes the method and the body. -/
inductive Switches : Nat → Method → Option Bytes → Method → Option Bytes → Prop
  | drop {status : Nat} {body : Option Bytes} (h : status ∈ [301, 302, 303]) :
      Switches status .POST body .GET none
  | keep {status : Nat} {method : Method} {body : Option Bytes}
      (h : method = .POST → status ∉ [301, 302, 303]) : Switches status method body method body

/-- What the loop can do with so many hops left, from a method, a body and an address on. -/
inductive Walk : Nat → Method → Option Bytes → String → List (Event Bytes) → Prop
  | exhausted {method : Method} {body : Option Bytes} {url : String} : Walk 0 method body url []
  | unanswered {hops : Nat} {method : Method} {body : Option Bytes} {url : String} :
      Walk (hops + 1) method body url [.request method url (sentBody method body)]
  | answered {hops : Nat} {method : Method} {body : Option Bytes} {url : String} (status : Nat) :
      Walk (hops + 1) method body url
        [.request method url (sentBody method body), .response status]
  | refused {hops : Nat} {method : Method} {body : Option Bytes} {url : String} (status : Nat)
      (next : String) (refusal : Refusal) : Walk (hops + 1) method body url
        [.request method url (sentBody method body), .response status, .validate next (some refusal)]
  | followed {hops : Nat} {method method' : Method} {body body' : Option Bytes} {url next : String}
      {status : Nat} {rest : List (Event Bytes)} (hswitch : Switches status method body method' body')
      (hrest : Walk hops method' body' next rest) : Walk (hops + 1) method body url
        (.request method url (sentBody method body) :: .response status :: .validate next none :: rest)

theorem walk_followHops (net : Network Bytes) (maxHops hops k : Nat) (method : Method)
    (body : Option Bytes) (url : String) :
    Walk hops method body url (followHops net maxHops hops k method body url).1 := by
  induction hops generalizing k method body url with
  | zero => exact .exhausted
  | succ hops ih =>
    rw [followHops]
    dsimp only
    split
    · exact .unanswered
    · next resp _ =>
      split
      · exact .answered resp.statusCode
      · split
        · exact .answered resp.statusCode
        · exact .answered resp.statusCode
        · next location _ _ =>
          split
          · exact .answered resp.statusCode
          · next next' _ =>
            split
            · next refusal hrefusal =>
              rw [hrefusal]
              exact .refused resp.statusCode next' refusal
            · next hnone =>
              rw [hnone]
              refine .followed ?_ (ih _ _ _ _)
              by_cases hswitch : method = .POST ∧ resp.statusCode ∈ [301, 302, 303]
              · rw [if_pos hswitch, if_pos hswitch, hswitch.1]
                exact .drop hswitch.2
              · rw [if_neg hswitch, if_neg hswitch]
                exact .keep fun hpost hstatus => hswitch ⟨hpost, hstatus⟩

section Walk

variable {hops : Nat} {method : Method} {body : Option Bytes} {url : String}
  {events : List (Event Bytes)}

/-- The first request is to the address of the walk, every other one to an address just checked. -/
theorem Walk.validated (h : Walk hops method body url events) {earlier later : List (Event Bytes)}
    {method' : Method} {url' : String} {body' : Option Bytes}
    (heq : events = earlier ++ .request method' url' body' :: later) :
    earlier = [] ∧ url' = url ∨ ∃ before, earlier = before ++ [.validate url' none] := by
  induction h generalizing earlier with
  | exhausted => simp at heq
  | unanswered =>
    cases earlier with
    | nil =>
      cases heq
      exact .inl ⟨rfl, rfl⟩
    | cons _ earlier => simp at heq
  | answered status =>
    match earlier, heq with
    | [], heq =>
      cases heq
      exact .inl ⟨rfl, rfl⟩
    | _ :: _ :: earlier, heq => simp at heq
  | refused status next refusal =>
    match earlier, heq with
    | [], heq =>
      cases heq
      exact .inl ⟨rfl, rfl⟩
    | _ :: _ :: _ :: earlier, heq => simp at heq
  | followed hswitch hrest ih =>
    match earlier, heq with
    | [], heq =>
      cases heq
      exact .inl ⟨rfl, rfl⟩
    | a :: b :: c :: earlier, heq =>
      right
      simp only [List.cons_append, List.cons.injEq] at heq
      obtain ⟨rfl, rfl, rfl, heq⟩ := heq
      rcases ih heq with ⟨rfl, rfl⟩ | ⟨before, rfl⟩
      · exact ⟨[_, _], rfl⟩
      · exact ⟨_ :: _ :: _ :: before, rfl⟩

theorem Walk.bounded (h : Walk hops method body url events) :
    events.countP Event.isRequest ≤ hops := by
  induction h with
  | exhausted => exact Nat.le_refl _
  | unanswered => exact Nat.succ_le_succ (Nat.zero_le _)
  | answered status => exact Nat.succ_le_succ (Nat.zero_le _)
  | refused status next refusal => exact Nat.succ_le_succ (Nat.zero_le _)
  | followed hswitch hrest ih => simpa [List.countP_cons, Event.isRequest] using ih

/-- A walk sends the body it has, with `POST`, or none. -/
theorem Walk.posted {content : Bytes} (h : Walk hops method body url events)
    (hbody : ∀ b, body = some b → b = content) {method' : Method} {url' : String} {b : Bytes}
    (hmem : .request method' url' (some b) ∈ events) : method' = .POST ∧ b = content := by
  have hsent : ∀ {method : Method} {body : Option Bytes}, (∀ b, body = some b → b = content) →
      some b = sentBody method body → method = .POST ∧ b = content := by
    intro method body hbody hsome
    rw [sentBody] at hsome
    split at hsome
    · next hpost => exact ⟨hpost, hbody b hsome.symm⟩
    · cases hsome
  induction h with
  | exhausted => simp at hmem
  | unanswered =>
    simp only [List.mem_singleton, Event.request.injEq] at hmem
    obtain ⟨rfl, -, hb⟩ := hmem
    exact hsent hbody hb
  | answered status =>
    simp only [List.mem_cons, Event.request.injEq, reduceCtorEq, List.not_mem_nil, or_self,
      or_false] at hmem
    obtain ⟨rfl, -, hb⟩ := hmem
    exact hsent hbody hb
  | refused status next refusal =>
    simp only [List.mem_cons, Event.request.injEq, reduceCtorEq, List.not_mem_nil, or_self,
      or_false] at hmem
    obtain ⟨rfl, -, hb⟩ := hmem
    exact hsent hbody hb
  | followed hswitch hrest ih =>
    simp only [List.mem_cons, Event.request.injEq, reduceCtorEq, false_or] at hmem
    rcases hmem with ⟨rfl, -, hb⟩ | hmem
    · exact hsent hbody hb
    · apply ih ?_ hmem
      cases hswitch with
      | drop _ => rintro b ⟨⟩
      | keep _ => exact hbody

/-- Once the method is `GET` it stays so, without a body. -/
theorem Walk.get (h : Walk hops method body url events) (hget : method = .GET) {method' : Method}
    {url' : String} {body' : Option Bytes} (hmem : .request method' url' body' ∈ events) :
    method' = .GET ∧ body' = none := by
  have hsent : ∀ {method : Method} {body : Option Bytes}, method = .GET →
      sentBody method body = none := by
    rintro _ _ rfl
    rfl
  induction h with
  | exhausted => simp at hmem
  | unanswered =>
    simp only [List.mem_singleton, Event.request.injEq] at hmem
    exact ⟨hmem.1.trans hget, hmem.2.2.trans (hsent hget)⟩
  | answered status =>
    simp only [List.mem_cons, Event.request.injEq, reduceCtorEq, List.not_mem_nil, or_self,
      or_false] at hmem
    exact ⟨hmem.1.trans hget, hmem.2.2.trans (hsent hget)⟩
  | refused status next refusal =>
    simp only [List.mem_cons, Event.request.injEq, reduceCtorEq, List.not_mem_nil, or_self,
      or_false] at hmem
    exact ⟨hmem.1.trans hget, hmem.2.2.trans (hsent hget)⟩
  | followed hswitch hrest ih =>
    simp only [List.mem_cons, Event.request.injEq, reduceCtorEq, false_or] at hmem
    rcases hmem with hmem | hmem
    · exact ⟨hmem.1.trans hget, hmem.2.2.trans (hsent hget)⟩
    · apply ih ?_ hmem
      cases hswitch with
      | drop _ => rfl
      | keep _ => exact hget

theorem Walk.dropped (h : Walk hops method body url events) {earlier later : List (Event Bytes)}
    {status : Nat} (heq : events = earlier ++ .response status :: later)
    (hstatus : status ∈ [301, 302, 303]) {method' : Method} {url' : String} {body' : Option Bytes}
    (hmem : .request method' url' body' ∈ later) : method' = .GET ∧ body' = none := by
  induction h generalizing earlier with
  | exhausted => simp at heq
  | unanswered =>
    match earlier, heq with
    | [], heq => simp at heq
    | _ :: earlier, heq => simp at heq
  | answered _ =>
    match earlier, heq with
    | [], heq => simp at heq
    | [_], heq =>
      simp only [List.cons_append, List.nil_append, List.cons.injEq] at heq
      obtain ⟨-, -, rfl⟩ := heq
      simp at hmem
    | _ :: _ :: earlier, heq => simp at heq
  | refused _ next refusal =>
    match earlier, heq with
    | [], heq => simp at heq
    | [_], heq =>
      simp only [List.cons_append, List.nil_append, List.cons.injEq] at heq
      obtain ⟨-, -, rfl⟩ := heq
      simp at hmem
    | [_, _], heq => simp at heq
    | _ :: _ :: _ :: earlier, heq => simp at heq
  | @followed _ method _ _ _ _ _ _ _ hswitch hrest ih =>
    match earlier, heq with
    | [], heq => simp at heq
    | [_], heq =>
      simp only [List.cons_append, List.nil_append, List.cons.injEq, Event.response.injEq] at heq
      obtain ⟨-, rfl, rfl⟩ := heq
      have hmem' := (List.mem_cons.mp hmem).resolve_left (by simp)
      cases hswitch with
      | drop _ => exact hrest.get rfl hmem'
      | keep hkeep =>
        have hget : method = .GET := by
          cases method with
          | POST => exact absurd hstatus (hkeep rfl)
          | GET => rfl
        exact hrest.get hget hmem'
    | [_, _], heq => simp at heq
    | _ :: _ :: _ :: earlier, heq =>
      simp only [List.cons_append, List.cons.injEq] at heq
      exact ih heq.2.2.2

end Walk

/-! ### The call -/

/-- Whatever the servers answer, a call requests only what it has just checked, in at most so many
requests, and does not send its body again behind a redirect that drops it. -/
theorem post_safe (net : Network Bytes) (url : String) (content : Bytes) (maxHops : Nat) :
    Safe maxHops content (postWithSafeRedirects net url content maxHops).1 := by
  rw [postWithSafeRedirects]
  dsimp only
  split
  · next refusal hrefusal =>
    rw [hrefusal]
    refine ⟨?_, Nat.zero_le _, ?_, ?_⟩
    · intro earlier method url' body later heq
      match earlier, heq with
      | [], heq => simp at heq
      | _ :: earlier, heq => simp at heq
    · intro method url' body hmem
      simp at hmem
    · intro earlier status later heq
      match earlier, heq with
      | [], heq => simp at heq
      | _ :: earlier, heq => simp at heq
  · next hnone =>
    rw [hnone]
    have hwalk := walk_followHops net maxHops (maxHops + 1) 0 .POST (some content) url
    refine ⟨?_, ?_, ?_, ?_⟩
    · intro earlier method url' body later heq
      match earlier, heq with
      | [], heq => simp at heq
      | e :: earlier, heq =>
        simp only [List.cons_append, List.nil_append, List.cons.injEq] at heq
        obtain ⟨rfl, heq⟩ := heq
        rcases hwalk.validated heq with ⟨rfl, rfl⟩ | ⟨before, rfl⟩
        · exact ⟨[], rfl⟩
        · exact ⟨_ :: before, rfl⟩
    · simpa [Event.isRequest] using hwalk.bounded
    · intro method url' body hmem
      have hmem' := (List.mem_append.mp hmem).resolve_left (by simp)
      exact hwalk.posted (fun b hb => (Option.some.inj hb).symm) hmem'
    · intro earlier status later heq hstatus method url' body hmem
      match earlier, heq with
      | [], heq => simp at heq
      | e :: earlier, heq =>
        simp only [List.cons_append, List.nil_append, List.cons.injEq] at heq
        exact hwalk.dropped heq.2 hstatus hmem

/-! ### Against the model of one delivery -/

/-- The same world without bodies, where joining addresses never raises. -/
structure Network.Matches (net : Network Bytes) (plain : Net) : Prop where
  objection : ∀ k url, (validatePublicHttpUrl net k url).map Refusal.posted =
    (plain.objection (k + 1) url).map Posted.unsafeUrl
  send : ∀ k method url body, net.send k method url body = plain.send k method url
  urljoin : ∀ url location, net.urljoin url location = .ok (plain.urljoin url location)

theorem followHops_refines {net : Network Bytes} {plain : Net} (h : net.Matches plain)
    (hops k : Nat) (method : Method) (body : Option Bytes) (url : String) :
    (followHops net maxRedirectHops hops k method body url).2 =
      followRedirects plain hops k method url := by
  induction hops generalizing k method body url with
  | zero => rfl
  | succ hops ih =>
    rw [followHops, followRedirects]
    dsimp only
    rw [h.send]
    cases plain.send k method url with
    | error e => rfl
    | ok resp =>
      dsimp only
      by_cases hstatus : resp.statusCode ∉ redirectStatuses
      · rw [if_pos hstatus, if_pos hstatus]
      · rw [if_neg hstatus, if_neg hstatus]
        cases hlocation : resp.location with
        | none => rfl
        | some location =>
          by_cases hempty : location = ""
          · subst hempty
            rfl
          · simp only [h.urljoin]
            have hcheck := h.objection (k + 1) (plain.urljoin url location)
            cases hplain : plain.objection (k + 2) (plain.urljoin url location) with
            | some message =>
              rw [hplain, Option.map_some, Option.map_eq_some_iff] at hcheck
              obtain ⟨refusal, hrefusal, hposted⟩ := hcheck
              rw [hrefusal]
              exact hposted
            | none =>
              rw [hplain, Option.map_none, Option.map_eq_none_iff] at hcheck
              rw [hcheck]
              dsimp only
              rw [ih]
              cases method <;> simp

theorem post_refines {net : Network Bytes} {plain : Net} (h : net.Matches plain) (url : String)
    (content : Bytes) : (postWithSafeRedirects net url content maxRedirectHops).2 =
      Webhooks.postWithSafeRedirects plain url := by
  have hcheck := h.objection 0 url
  rw [postWithSafeRedirects, Webhooks.postWithSafeRedirects]
  dsimp only
  cases hplain : plain.objection 1 url with
  | some message =>
    rw [hplain, Option.map_some, Option.map_eq_some_iff] at hcheck
    obtain ⟨refusal, hrefusal, hposted⟩ := hcheck
    rw [hrefusal]
    exact hposted
  | none =>
    rw [hplain, Option.map_none, Option.map_eq_none_iff] at hcheck
    rw [hcheck]
    exact followHops_refines h _ _ _ _ _

end PipelineIQ.Tasks.Redirects
