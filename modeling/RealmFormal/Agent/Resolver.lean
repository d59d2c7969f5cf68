import RealmFormal.Agent.Egress
import RealmFormal.Go.Dns
import RealmFormal.Lib.Interaction

/-!
# The resolver of a worker

`newResolver` collects the addresses of the declared names, in the order in which it
meets the map, and `answer` decides one query: the declared names by itself, all
others by asking an upstream server over HTTP. The environment of `answer` is the
limit of queries in flight and the server, whose response is arbitrary. The functions
of the `dns` package are parameters; of its replies only what it documents is used, and
of canonical names nothing.
-/

namespace RealmFormal.Agent
open Go Go.Netip Go.Dns Interaction
set_option autoImplicit false

/-! ## The code -/

structure Resolver where
  internetSocket : Bytes
  dnsUpstream : Bytes
  hosts : Table Bytes (List Addr)

section New
variable (dns : Package)

/-- One turn of the inner loop of `newResolver`; `MustParseAddr` may panic. -/
def addHost (name : Bytes) (hosts : Table Bytes (List Addr)) (s : Bytes) :
    Option (Table Bytes (List Addr)) :=
  (parseAddr s).map fun ip =>
    hosts.put (dns.canonicalName name) ((hosts.get (dns.canonicalName name)).getD [] ++ [ip])

def addHosts (hosts : Table Bytes (List Addr)) (host : Bytes × List Bytes) :
    Option (Table Bytes (List Addr)) :=
  host.2.foldlM (addHost dns host.1) hosts

/-- `order` lists the map of the declared names as the loop visits it. -/
def newResolver (w : Workload) (order : List (Bytes × List Bytes)) : Option Resolver :=
  (order.foldlM (addHosts dns) Table.empty).map fun hosts =>
    ⟨w.internetSocket, w.dnsUpstream, hosts⟩

end New

/-- The body of a response: its bytes, and the error that ends it, if any. -/
structure Body where
  bytes : Bytes
  err : Option String

structure UpstreamResponse where
  statusCode : Int
  contentType : Bytes
  body : Body

/-- `io.ReadAll` of a limited reader. -/
def readAll (limit : Nat) (body : Body) : Except String Bytes :=
  if limit ≤ body.bytes.length then .ok (body.bytes.take limit)
  else
    match body.err with
    | some e => .error e
    | none => .ok body.bytes

/-- What the query asks of its environment: a slot of the limit, and the server. -/
inductive ResolverOp where
  | acquire
  | release
  | post (url raw : Bytes)

def ResolverOp.Answer : ResolverOp → Type
  | .acquire => Bool
  | .release => Unit
  | .post _ _ => Except String UpstreamResponse

abbrev Query := Prog ResolverOp ResolverOp.Answer

abbrev acquire : Query Bool := Prog.request ResolverOp.acquire

abbrev release : Query Unit := Prog.request ResolverOp.release

abbrev post (url raw : Bytes) : Query (Except String UpstreamResponse) :=
  Prog.request (ResolverOp.post url raw)

/-- `Pack`, `Unpack`, and whether `NewRequestWithContext` takes the address. -/
structure Wire where
  pack : Msg → Option Bytes
  unpack : Bytes → Option Msg
  newRequest : Bytes → Bool

/-- The records that one address adds to the answer. -/
def addressRecords (question : Question) (ip : Addr) : List Record :=
  (if question.qtype = typeA ∧ ip.is4 then
      [⟨question.name, typeA, classINET, 60, ip.bytes⟩] else []) ++
    if question.qtype = typeAAAA ∧ ip.is6 then
      [⟨question.name, typeAAAA, classINET, 60, ip.bytes⟩] else []

section Answer
variable (wire : Wire)

/-- The part of `answer` after the response of the server. -/
def acceptUpstream (q : Msg) (question : Question) (a : Msg) (resp : UpstreamResponse) : Msg :=
  let failure := { a with rcode := rcodeServerFailure }
  if resp.statusCode ≠ 200 ∨ !hasPrefix resp.contentType (str "application/dns-message") then
    failure
  else
    match readAll 65536 resp.body with
    | .error _ => failure
    | .ok body =>
      if body.length > 65535 then failure
      else
        match wire.unpack body with
        | none => failure
        | some upstream =>
          if !upstream.response ∨ upstream.id ≠ q.id ∨ upstream.question ≠ [question] then failure
          else upstream

def forward (r : Resolver) (q : Msg) (question : Question) (a : Msg) : Query Msg :=
  match wire.pack q with
  | none => pure { a with rcode := rcodeFormatError }
  | some raw =>
    if !wire.newRequest r.dnsUpstream then pure { a with rcode := rcodeServerFailure }
    else do
      match ← post r.dnsUpstream raw with
      | .error _ => pure { a with rcode := rcodeServerFailure }
      | .ok resp => pure (acceptUpstream wire q question a resp)

/-- The part of `answer` for names that are not declared. -/
def askUpstream (r : Resolver) (q : Msg) (question : Question) (a : Msg) : Query Msg :=
  if r.internetSocket = [] then pure { a with rcode := rcodeRefused }
  else do
    let acquired ← acquire
    if acquired then
      let reply ← forward wire r q question a
      release
      pure reply
    else pure { a with rcode := rcodeServerFailure }

def answer (dns : Package) (r : Resolver) (q : Msg) : Query Msg :=
  let a := { dns.setReply q with recursionAvailable := decide (r.internetSocket ≠ []) }
  match q.question with
  | [question] =>
    if q.opcode ≠ opcodeQuery ∨ question.qclass ≠ classINET then
      pure { a with rcode := rcodeFormatError }
    else
      match r.hosts.get (dns.canonicalName question.name) with
      | some addresses =>
        pure { a with
          authoritative := true
          answer := a.answer ++ addresses.flatMap (addressRecords question) }
      | none => askUpstream wire r q question a
  | _ => pure { a with rcode := rcodeFormatError }

end Answer

/-! ## The collected names -/

/-- No entry for an empty list. -/
def entryOf (addresses : List Addr) : Option (List Addr) :=
  if addresses = [] then none else some addresses

theorem entryOf_getD (addresses : List Addr) : (entryOf addresses).getD [] = addresses := by
  unfold entryOf
  split
  · rename_i hempty
    rw [hempty]
    rfl
  · rfl

/-- The map holds these addresses for every key. -/
def HoldsAddresses (hosts : Table Bytes (List Addr)) (addresses : Bytes → List Addr) : Prop :=
  ∀ key, hosts.get key = entryOf (addresses key)

/-- The addresses of the declared names with this canonical form. -/
def declaredAddresses (dns : Package) (hosts : List (Bytes × List Bytes)) (key : Bytes) : List Addr :=
  (hosts.filter fun host => decide (dns.canonicalName host.1 = key)).flatMap fun host =>
    host.2.filterMap parseAddr

theorem declaredAddresses_cons (dns : Package) (host : Bytes × List Bytes)
    (hosts : List (Bytes × List Bytes)) (key : Bytes) :
    declaredAddresses dns (host :: hosts) key =
      (if dns.canonicalName host.1 = key then host.2.filterMap parseAddr else []) ++
        declaredAddresses dns hosts key := by
  unfold declaredAddresses
  by_cases hkey : dns.canonicalName host.1 = key
  · rw [List.filter_cons_of_pos (by simpa using hkey), if_pos hkey, List.flatMap_cons]
  · rw [List.filter_cons_of_neg (by simpa using hkey), if_neg hkey, List.nil_append]

section Hosts
variable {dns : Package} {hosts : Table Bytes (List Addr)} {addresses : Bytes → List Addr}

theorem addHost_holds (h : HoldsAddresses hosts addresses) (name : Bytes) {s : Bytes} {ip : Addr}
    (hs : parseAddr s = some ip) :
    ∃ hosts', addHost dns name hosts s = some hosts' ∧
      HoldsAddresses hosts' fun key =>
        addresses key ++ if dns.canonicalName name = key then [ip] else [] := by
  refine ⟨_, by rw [addHost, hs]; rfl, ?_⟩
  intro key
  dsimp only
  rw [Table.get_put, h, h, entryOf_getD]
  by_cases hkey : key = dns.canonicalName name
  · rw [if_pos hkey, if_pos hkey.symm, hkey, entryOf, if_neg (by simp)]
  · rw [if_neg hkey, if_neg (Ne.symm hkey), List.append_nil]

theorem addHosts_holds (h : HoldsAddresses hosts addresses) {host : Bytes × List Bytes}
    (hparse : ∀ s ∈ host.2, ∃ ip, parseAddr s = some ip) :
    ∃ hosts', addHosts dns hosts host = some hosts' ∧ HoldsAddresses hosts' fun key => addresses key ++
      if dns.canonicalName host.1 = key then host.2.filterMap parseAddr else [] := by
  obtain ⟨name, texts⟩ := host
  unfold addHosts
  induction texts generalizing hosts addresses with
  | nil =>
    refine ⟨hosts, rfl, ?_⟩
    simpa [HoldsAddresses] using h
  | cons s texts ih =>
    obtain ⟨⟨ip, hip⟩, hrest⟩ := List.forall_mem_cons.mp hparse
    obtain ⟨next, hnext, hholds⟩ := addHost_holds h name hip
    obtain ⟨final, hfinal, hfinalHolds⟩ := ih hholds hrest
    refine ⟨final, ?_, ?_⟩
    · rw [List.foldlM_cons, hnext]
      exact hfinal
    · intro key
      rw [hfinalHolds key]
      dsimp only
      rw [List.append_assoc, List.filterMap_cons_some hip]
      by_cases hkey : dns.canonicalName name = key
      · simp [hkey]
      · simp [hkey]

theorem foldlM_holds (h : HoldsAddresses hosts addresses) {order : List (Bytes × List Bytes)}
    (hparse : ∀ host ∈ order, ∀ s ∈ host.2, ∃ ip, parseAddr s = some ip) :
    ∃ hosts', order.foldlM (addHosts dns) hosts = some hosts' ∧
      HoldsAddresses hosts' fun key => addresses key ++ declaredAddresses dns order key := by
  induction order generalizing hosts addresses with
  | nil =>
    refine ⟨hosts, rfl, ?_⟩
    simpa [HoldsAddresses, declaredAddresses] using h
  | cons host order ih =>
    obtain ⟨hhost, horder⟩ := List.forall_mem_cons.mp hparse
    obtain ⟨next, hnext, hholds⟩ := addHosts_holds h hhost
    obtain ⟨final, hfinal, hfinalHolds⟩ := ih hholds horder
    refine ⟨final, ?_, ?_⟩
    · rw [List.foldlM_cons, hnext]
      exact hfinal
    · intro key
      rw [hfinalHolds key]
      dsimp only
      rw [declaredAddresses_cons, List.append_assoc]

end Hosts

theorem checkHost_parse {host : Bytes × List Bytes} (h : checkHost host = none) :
    host.2 ≠ [] ∧ ∀ s ∈ host.2, ∃ ip, parseAddr s = some ip := by
  unfold checkHost at h
  split at h
  · cases h
  · rename_i hhost
    rw [not_or, not_or] at hhost
    refine ⟨fun hempty => hhost.2.2 (by rw [hempty]; rfl), ?_⟩
    intro s hs
    have hnone := List.find?_eq_none.mp (Option.map_eq_none_iff.mp h) s hs
    rw [Bool.not_eq_true, Option.isNone_eq_false_iff] at hnone
    exact Option.isSome_iff_exists.mp hnone

theorem declaredAddresses_perm (dns : Package) {hosts order : List (Bytes × List Bytes)}
    (h : order.Perm hosts) (key : Bytes) :
    (declaredAddresses dns order key).Perm (declaredAddresses dns hosts key) :=
  (h.filter _).flatMap_right _

/-! ## Answers from the declared names -/

/-- One record of the type of the question for each address of this type. -/
def expectedRecords (question : Question) (addresses : List Addr) : List Record :=
  if question.qtype = typeA then
    (addresses.filter Addr.is4).map fun ip => ⟨question.name, typeA, classINET, 60, ip.bytes⟩
  else if question.qtype = typeAAAA then
    (addresses.filter Addr.is6).map fun ip => ⟨question.name, typeAAAA, classINET, 60, ip.bytes⟩
  else []

theorem flatMap_addressRecords (question : Question) (addresses : List Addr) :
    addresses.flatMap (addressRecords question) = expectedRecords question addresses := by
  have hdiffer : typeA ≠ typeAAAA := by decide
  induction addresses with
  | nil => simp [expectedRecords]
  | cons ip addresses ih =>
    rw [List.flatMap_cons, ih]
    unfold expectedRecords addressRecords
    by_cases hA : question.qtype = typeA
    · cases hip : ip.is4 <;> simp [hA, hdiffer, hip]
    · by_cases hAAAA : question.qtype = typeAAAA
      · cases hip : ip.is6 <;> simp [hAAAA, hdiffer.symm, hip]
      · simp [hA, hAAAA]

theorem expectedRecords_perm (question : Question) {xs ys : List Addr} (h : xs.Perm ys) :
    (expectedRecords question xs).Perm (expectedRecords question ys) := by
  unfold expectedRecords
  split
  · exact (h.filter _).map _
  · split
    · exact (h.filter _).map _
    · exact List.Perm.refl _

/-! ## Replies -/

/-- A reply belongs to the query. -/
structure Replies (q reply : Msg) : Prop where
  response : reply.response = true
  id : reply.id = q.id
  question : q.question.length = 1 → reply.question = q.question

theorem setReply_replies {dns : Package} (hdns : dns.Documented) (q : Msg) :
    Replies q (dns.setReply q) := ⟨hdns.response q, hdns.id q, hdns.question q⟩

section Replying
variable {wire : Wire} {r : Resolver} {q a : Msg} {question : Question}

theorem Replies.withRcode (h : Replies q a) (rcode : Int) : Replies q { a with rcode := rcode } :=
  ⟨h.response, h.id, h.question⟩

theorem acceptUpstream_replies (h : Replies q a) (hq : q.question = [question])
    (resp : UpstreamResponse) : Replies q (acceptUpstream wire q question a resp) := by
  have hfailure := h.withRcode rcodeServerFailure
  unfold acceptUpstream
  dsimp only
  split
  · exact hfailure
  · split
    · exact hfailure
    · split
      · exact hfailure
      · split
        · exact hfailure
        · split
          · exact hfailure
          · rename_i hsame
            rw [not_or, not_or, not_not, ne_eq, not_not] at hsame
            exact ⟨by simpa using hsame.1, hsame.2.1, fun _ => hsame.2.2.trans hq.symm⟩

theorem forward_replies (h : Replies q a) (hq : q.question = [question]) :
    (forward wire r q question a).Sat fun _ reply => Replies q reply := by
  unfold forward
  split
  · exact h.withRcode _
  · split
    · exact h.withRcode _
    · intro x
      cases x with
      | error e => exact h.withRcode _
      | ok resp => exact acceptUpstream_replies h hq resp

theorem askUpstream_replies (h : Replies q a) (hq : q.question = [question]) :
    (askUpstream wire r q question a).Sat fun _ reply => Replies q reply := by
  unfold askUpstream
  split
  · exact h.withRcode _
  · intro acquired
    cases acquired with
    | false => exact h.withRcode _
    | true => exact (forward_replies h hq).bind fun _ _ hreply _ => hreply

theorem answer_replies (wire : Wire) {dns : Package} (hdns : dns.Documented) (r : Resolver)
    (q : Msg) : (answer wire dns r q).Sat fun _ reply => Replies q reply := by
  have hreply := setReply_replies hdns q
  unfold answer
  dsimp only
  split
  · rename_i question hq
    split
    · exact ⟨hreply.response, hreply.id, hreply.question⟩
    · split
      · exact ⟨hreply.response, hreply.id, hreply.question⟩
      · exact askUpstream_replies ⟨hreply.response, hreply.id, hreply.question⟩ hq
  · exact ⟨hreply.response, hreply.id, hreply.question⟩

end Replying

/-! ## Who is asked -/

def ResolverOp.isPost : ResolverOp → Bool
  | .post _ _ => true
  | _ => false

/-- The run has not asked the server. -/
def Silent (trace : List (Event ResolverOp ResolverOp.Answer)) : Prop :=
  ∀ e ∈ trace, e.1.isPost = false

theorem answer_silent (wire : Wire) (dns : Package) {r : Resolver} (h : r.internetSocket = [])
    (q : Msg) : (answer wire dns r q).Sat fun trace _ => Silent trace := by
  have hsilent : Silent [] := List.forall_mem_nil _
  unfold answer
  dsimp only
  split
  · split
    · exact hsilent
    · split
      · exact hsilent
      · unfold askUpstream
        rw [if_pos h]
        exact hsilent
  · exact hsilent

theorem answer_declared (wire : Wire) {dns : Package} (hdns : dns.Documented) {r : Resolver}
    {q : Msg} {question : Question} {addresses : List Addr} (hopcode : q.opcode = opcodeQuery)
    (hq : q.question = [question]) (hclass : question.qclass = classINET)
    (hhosts : r.hosts.get (dns.canonicalName question.name) = some addresses) :
    (answer wire dns r q).Sat fun trace reply =>
      Silent trace ∧ reply.answer = expectedRecords question addresses := by
  unfold answer
  dsimp only
  rw [hq]
  dsimp only
  rw [if_neg (by simp [hopcode, hclass]), hhosts]
  refine ⟨List.forall_mem_nil _, ?_⟩
  dsimp only
  rw [hdns.answer, List.nil_append, flatMap_addressRecords]

theorem declaredAddresses_ne_nil (dns : Package) {hosts : List (Bytes × List Bytes)}
    {host : Bytes × List Bytes} (hhost : host ∈ hosts) (hfull : host.2 ≠ [])
    (hparse : ∀ s ∈ host.2, ∃ ip, parseAddr s = some ip) :
    declaredAddresses dns hosts (dns.canonicalName host.1) ≠ [] := by
  obtain ⟨s, hs⟩ := List.exists_mem_of_ne_nil host.2 hfull
  obtain ⟨ip, hip⟩ := hparse s hs
  have hmem : ip ∈ declaredAddresses dns hosts (dns.canonicalName host.1) :=
    List.mem_flatMap.mpr ⟨host, List.mem_filter.mpr ⟨hhost, decide_eq_true rfl⟩,
      List.mem_filterMap.mpr ⟨s, hs, hip⟩⟩
  exact List.ne_nil_of_mem hmem

/-- The declared names are answered from the declaration alone, no query leaves a workload
without an Internet socket, and every reply belongs to its query. -/
theorem resolver_answers {dns : Package} (hdns : dns.Documented)
    {parseURL : Bytes → Option Url} {w v : Workload} (haccepted : w.validate parseURL = .ok v)
    {order : List (Bytes × List Bytes)} (horder : order.Perm v.dnsHosts.entries) :
    ∃ r, newResolver dns v order = some r ∧ ∀ wire,
      (∀ q question env, q.opcode = opcodeQuery → q.question = [question] →
        question.qclass = classINET →
        (∃ host ∈ v.dnsHosts.entries, dns.canonicalName host.1 = dns.canonicalName question.name) →
        Silent ((answer wire dns r q).run env 0).1 ∧
          ((answer wire dns r q).run env 0).2.answer.Perm (expectedRecords question
            (declaredAddresses dns v.dnsHosts.entries (dns.canonicalName question.name)))) ∧
      (v.internetSocket = [] → ∀ q env, Silent ((answer wire dns r q).run env 0).1) ∧
      ∀ q env, Replies q ((answer wire dns r q).run env 0).2 := by
  have hparse : ∀ host ∈ v.dnsHosts.entries, host.2 ≠ [] ∧ ∀ s ∈ host.2,
      ∃ ip, parseAddr s = some ip := fun host hhost =>
    checkHost_parse ((validate_accepted haccepted).dnsHosts host hhost)
  have hempty : HoldsAddresses Table.empty fun _ => [] := fun _ => rfl
  obtain ⟨hosts, hfold, hholds⟩ := foldlM_holds hempty fun host hhost =>
    (hparse host (horder.mem_iff.mp hhost)).2
  refine ⟨⟨v.internetSocket, v.dnsUpstream, hosts⟩, by rw [newResolver, hfold]; rfl, ?_⟩
  intro wire
  refine ⟨?_, ?_, ?_⟩
  · rintro q question env hopcode hq hclass ⟨host, hhost, hname⟩
    have hperm := declaredAddresses_perm dns horder (dns.canonicalName question.name)
    have hne : declaredAddresses dns order (dns.canonicalName question.name) ≠ [] := by
      obtain ⟨hfull, haddresses⟩ := hparse host hhost
      rw [← hname]
      exact declaredAddresses_ne_nil dns (horder.mem_iff.mpr hhost) hfull haddresses
    have hget : hosts.get (dns.canonicalName question.name) =
        some (declaredAddresses dns order (dns.canonicalName question.name)) :=
      (hholds (dns.canonicalName question.name)).trans (if_neg hne)
    obtain ⟨hsilent, hanswer⟩ := (answer_declared (r := ⟨v.internetSocket, v.dnsUpstream, hosts⟩)
      wire hdns hopcode hq hclass hget).run env 0
    rw [hanswer]
    exact ⟨hsilent, expectedRecords_perm question hperm⟩
  · intro hsocket q env
    exact (answer_silent wire dns hsocket q).run env 0
  · intro q env
    exact (answer_replies wire hdns _ q).run env 0

/-- Two spellings of one name, for a workload without an Internet socket. -/
def mergedAliases : Workload :=
  { sampleEgress with
    internetSocket := []
    dnsHosts := ⟨[(str "s3.nyaw.xyz", [str "127.0.0.1"]),
      (str "S3.NYAW.XYZ.", [str "192.0.2.1", str "2001:db8::1"])], by decide⟩ }

def aliasQuestion : Question := ⟨str "s3.Nyaw.xyz.", typeA, classINET⟩

def aliasQuery : Msg :=
  { id := 7, response := false, opcode := opcodeQuery, authoritative := false, truncated := false,
    recursionDesired := true, recursionAvailable := false, zero := false,
    authenticatedData := false, checkingDisabled := false, rcode := rcodeSuccess,
    question := [aliasQuestion], answer := [], ns := [], extra := [] }

/-- Names in lower case with a final dot, and replies that keep the ID, the opcode and the first
question. -/
def asciiDns : Package where
  setReply request :=
    { id := request.id, response := true, opcode := request.opcode, authoritative := false,
      truncated := false, recursionDesired := request.recursionDesired,
      recursionAvailable := false, zero := false, authenticatedData := false,
      checkingDisabled := request.checkingDisabled, rcode := rcodeSuccess,
      question := request.question.take 1, answer := [], ns := [], extra := [] }
  canonicalName name :=
    (if name.getLast? = some (chr '.') then name else name ++ [chr '.']).map fun b =>
      if isUpper b then b + 32 else b

theorem asciiDns_documented : asciiDns.Documented where
  response _ := rfl
  id _ := rfl
  question _ hone := List.take_of_length_le (Nat.le_of_eq hone)
  answer _ := rfl

theorem resolver_answers_mergedAliases :
    ∃ r, newResolver asciiDns mergedAliases.withDefaults
        mergedAliases.dnsHosts.entries.reverse = some r ∧
      ∀ wire env, Silent ((answer wire asciiDns r aliasQuery).run env 0).1 ∧
        ((answer wire asciiDns r aliasQuery).run env 0).2.answer.Perm
          [⟨aliasQuestion.name, typeA, classINET, 60, [127, 0, 0, 1]⟩,
            ⟨aliasQuestion.name, typeA, classINET, 60, [192, 0, 2, 1]⟩] ∧
        Replies aliasQuery ((answer wire asciiDns r aliasQuery).run env 0).2 := by
  have hcheck : mergedAliases.check sampleUpstream = none := by decide +kernel
  have haccepted : mergedAliases.validate sampleUpstream = .ok mergedAliases.withDefaults := by
    rw [Workload.validate, hcheck]
  have horder : mergedAliases.dnsHosts.entries.reverse.Perm
      mergedAliases.withDefaults.dnsHosts.entries := List.reverse_perm _
  have hfacts : (∃ host ∈ mergedAliases.withDefaults.dnsHosts.entries,
        asciiDns.canonicalName host.1 = asciiDns.canonicalName aliasQuestion.name) ∧
      expectedRecords aliasQuestion
        (declaredAddresses asciiDns mergedAliases.withDefaults.dnsHosts.entries
          (asciiDns.canonicalName aliasQuestion.name)) =
          [⟨aliasQuestion.name, typeA, classINET, 60, [127, 0, 0, 1]⟩,
            ⟨aliasQuestion.name, typeA, classINET, 60, [192, 0, 2, 1]⟩] := by
    decide +kernel
  obtain ⟨hdeclared, hrecords⟩ := hfacts
  obtain ⟨r, hr, hanswers⟩ := resolver_answers asciiDns_documented haccepted horder
  refine ⟨r, hr, fun wire env => ?_⟩
  obtain ⟨hanswer, -, hreplies⟩ := hanswers wire
  obtain ⟨hsilent, hperm⟩ := hanswer aliasQuery aliasQuestion env rfl rfl rfl hdeclared
  rw [hrecords] at hperm
  exact ⟨hsilent, hperm, hreplies aliasQuery env⟩

end RealmFormal.Agent
