import Mathlib.Data.List.Induction
import LibJuno.Lib.Parallel
import LibJuno.Resolver.FrontEnds

/-!
# The tool server

`mcp/mcpServer.ts`. A request comes as its head, the chunks of its body and the end or an
error of the stream; the events of all requests are interleaved with one another and with
changes of the index. A body is collected up to a limit and the first way in which it
settles counts; one that goes over the limit has its socket closed, and what is sent after
that is lost. The reader of JSON, the decoder of bytes and the two resolvers are
parameters, and so is the type of numbers.
-/

namespace LibJuno.Mcp

open Indexer Resolver

/-- Maximum allowed request body size. -/
def MAX_BODY_BYTES : Nat := 1048576

/-- What `JSON.parse` returns, over a type of numbers. -/
inductive Value (ν : Type) where
  | null
  | bool (b : Bool)
  | number (x : ν)
  | string (s : String)
  | array (items : List (Value ν))
  | object (members : List (String × Value ν))

namespace Value

variable {ν : Type}

/-- A property of a value that is not null, `undefined` when there is none. -/
def get : Value ν → String → Option (Value ν)
  | .object members, key => (members.find? fun m => decide (m.1 = key)).map Prod.snd
  | _, _ => none

/-- `typeof v === 'string' ? v : ''` -/
def textOf : Option (Value ν) → String
  | some (.string s) => s
  | _ => ""

/-- `v ?? {}` -/
def orEmpty : Option (Value ν) → Value ν
  | none | some .null => .object []
  | some v => v

end Value

/-- `ResolveParams`, as they were sent. -/
structure Args (ν : Type) where
  file : String
  line : ν
  column : ν
  lineText : String
deriving DecidableEq

/-- `isResolveParams`, with the fields that it finds. -/
def resolveParams {ν : Type} : Value ν → Option (Args ν)
  | v@(.object _) =>
    match v.get "file", v.get "line", v.get "column", v.get "lineText" with
    | some (.string file), some (.number line), some (.number column), some (.string lineText) =>
      some ⟨file, line, column, lineText⟩
    | _, _, _, _ => none
  | _ => none

/-- A property of an input schema: its name, type and description. -/
structure Property where
  name : String
  type : String
  description : String

structure Tool where
  name : String
  description : String
  required : List String
  properties : List Property

/-- The four arguments of both tools; only some of their descriptions differ. -/
def inputs (line lineText : String) : List Property :=
  [⟨"file", "string", "Absolute path to the C source file."⟩, ⟨"line", "integer", line⟩,
    ⟨"column", "integer", "1-based column number of the cursor."⟩, ⟨"lineText", "string", lineText⟩]

/-- What `tools/list` lists. -/
def tools : List Tool :=
  [{ name := "resolve_vtable_call"
     description := "Resolves a LibJuno vtable API call site to its concrete implementation " ++
      "function(s). Given a C source file path and cursor position (1-based line and column), " ++
      "returns the function name(s) and source location(s) of the implementation."
     required := ["file", "line", "column", "lineText"]
     properties := inputs "1-based line number of the call site."
      "Full text of the source line at the call site." },
   { name := "resolve_failure_handler"
     description := "Resolves a LibJuno failure handler assignment or FAIL macro call site to the " ++
      "registered handler function. Given a C source file path and cursor position, returns the " ++
      "handler function name and source location."
     required := ["file", "line", "column", "lineText"]
     properties := inputs "1-based line number." "Full text of the source line." }]

/-- The results of `initialize`, `tools/list` and `tools/call`. -/
inductive RpcResult where
  | serverInfo (protocolVersion serverName serverVersion : String)
  | toolsList (listed : List Tool)
  | content (result : VtableResolutionResult)

/-- The JSON that is sent. -/
inductive Body (ν : Type) where
  | error (message : String)
  | resolution (result : VtableResolutionResult) (isError : Bool)
  | indexStatus (fileCount : Nat) (cacheValid : Bool)
  | rpcResult (id : Value ν) (result : RpcResult)
  | rpcError (id : Value ν) (code : Int) (message : String)

/-- A response: its status and what `sendJson` sends, nothing for a notification. -/
structure Reply (ν : Type) where
  status : Nat
  body : Option (Body ν)

/-- The endpoints that read a body. -/
inductive Endpoint where
  | mcp
  | resolveVtableCall
  | resolveFailureHandler
deriving DecidableEq

def endpointOf (method url : String) : Option Endpoint :=
  if url = "/mcp" ∧ method = "POST" then some .mcp
  else if url = "/resolve_vtable_call" ∧ method = "POST" then some .resolveVtableCall
  else if url = "/resolve_failure_handler" ∧ method = "POST" then some .resolveFailureHandler
  else none

section Answers

variable {ν : Type} (index : NavigationIndex) (parse : String → Option (Value ν))
  (vtable handler : NavigationIndex → Args ν → VtableResolutionResult)

/-- The requests that are answered without their body. -/
def answerHead (method url : String) : Reply ν :=
  if url = "/index_status" ∧ (method = "GET" ∨ method = "POST") then
    let fileCount := index.localTypeInfo.entries.length
    ⟨200, some (.indexStatus fileCount (decide (0 < fileCount)))⟩
  else ⟨404, some (.error ("Unknown endpoint: " ++ url))⟩

/-- `/resolve_vtable_call` and `/resolve_failure_handler`. -/
def answerRest (resolver : NavigationIndex → Args ν → VtableResolutionResult) (body : String) : Reply ν :=
  match resolveParams ((parse body).getD .null) with
  | none => ⟨400, some (.error "Missing required fields: file, line, column, lineText.")⟩
  | some args =>
    let result := resolver index args
    ⟨200, some (.resolution result (!result.found))⟩

/-- The reply of a tool as the body of a response. -/
def bodyOf (id : Value ν) : McpReply → Body ν
  | .content result => .rpcResult id (.content result)
  | .error code message => .rpcError id code message

/-- `tools/call`. -/
def answerCall (id : Value ν) (params : Value ν) : Body ν :=
  bodyOf id (callTool (vtable index) (handler index) (Value.textOf (params.get "name"))
    (resolveParams (Value.orEmpty (params.get "arguments"))))

def answerMethod (r : Value ν) (id : Value ν) : Body ν :=
  let mcpMethod := Value.textOf (r.get "method")
  if mcpMethod = "initialize" then .rpcResult id (.serverInfo "2024-11-05" "libjuno" "0.1.7")
  else if mcpMethod = "tools/list" then .rpcResult id (.toolsList tools)
  else if mcpMethod = "tools/call" then
    answerCall index vtable handler id (Value.orEmpty (r.get "params"))
  else .rpcError id (-32601) ("Method not found: " ++ mcpMethod)

/-- `handleMcp`. The test for an `id` throws on `null`, and the caller answers that. -/
def answerMcp (rawBody : String) : Reply ν :=
  match parse rawBody with
  | none => ⟨200, some (.rpcError .null (-32700) "Parse error")⟩
  | some .null => ⟨500, some (.error "Internal server error")⟩
  | some r =>
    match r.get "id" with
    | none => ⟨202, none⟩
    | some id => ⟨200, some (answerMethod index vtable handler r id)⟩

/-- `handleRequest` once the body is there, or was refused. -/
def answer (endpoint : Endpoint) : Option String → Reply ν
  | none => ⟨400, some (.error "Request body too large.")⟩
  | some body =>
    match endpoint with
    | .mcp => answerMcp index parse vtable handler body
    | .resolveVtableCall => answerRest index parse vtable body
    | .resolveFailureHandler => answerRest index parse handler body

end Answers

section Exchanges

variable {ν : Type}

/-- The variables of `readBody` for a request. -/
structure Reading where
  endpoint : Endpoint
  chunks : List (List UInt8)
  totalBytes : Nat
  settled : Bool

/-- A request, whether its socket is open, and what was delivered on it. -/
structure Exchange (ν : Type) where
  reading : Option Reading
  connected : Bool
  replies : List (Reply ν)

/-- What the server is told of a request. -/
inductive RequestEvent where
  | head (method url : String)
  | data (chunk : List UInt8)
  | finish
  | fail

def Exchange.none : Exchange ν := ⟨.none, true, []⟩

/-- What is sent on a closed socket is lost. -/
def Exchange.send (x : Exchange ν) (reply : Reply ν) : Exchange ν :=
  if x.connected then { x with replies := x.replies ++ [reply] } else x

/-- `req.destroy()`, or a connection that broke. -/
def Exchange.close (x : Exchange ν) : Exchange ν := { x with connected := false }

/-- What the server does with a request apart from its JSON. -/
structure Handlers (ν : Type) where
  decode : List UInt8 → String
  parse : String → Option (Value ν)
  vtable : NavigationIndex → Args ν → VtableResolutionResult
  handler : NavigationIndex → Args ν → VtableResolutionResult

variable (h : Handlers ν)

def Handlers.reply (index : NavigationIndex) (endpoint : Endpoint) (body : Option (List UInt8)) : Reply ν :=
  answer index h.parse h.vtable h.handler endpoint (body.map h.decode)

/-- `resolve(body)`, which counts once; the handler then goes on at once. -/
def settle (index : NavigationIndex) (x : Exchange ν) (r : Reading) (body : Option (List UInt8)) :
    Exchange ν :=
  if r.settled then { x with reading := some r }
  else { x with reading := some { r with settled := true } }.send (h.reply index r.endpoint body)

/-- The listeners of the server and of a body. A body that goes over the limit closes the
socket before it is refused, and a stream only fails when its connection has. -/
def turn (index : NavigationIndex) (x : Exchange ν) : RequestEvent → Exchange ν
  | .head method url =>
    match endpointOf method url with
    | some endpoint => { x with reading := some ⟨endpoint, [], 0, false⟩ }
    | none => x.send (answerHead index method url)
  | .data chunk =>
    match x.reading with
    | none => x
    | some r =>
      let totalBytes := r.totalBytes + chunk.length
      if MAX_BODY_BYTES < totalBytes then settle h index x.close { r with totalBytes } none
      else { x with reading := some { r with totalBytes, chunks := r.chunks ++ [chunk] } }
  | .finish =>
    match x.reading with
    | none => x
    | some r => settle h index x r (some r.chunks.flatten)
  | .fail =>
    match x.reading with
    | none => x
    | some r => settle h index x.close r none

/-- The server: the index that its resolvers read, and the requests. -/
abbrev Server (ν : Type) := Parallel.State Nat NavigationIndex (Exchange ν)

/-- An event: the index changes, or something happens to a request. -/
abbrev ServerEvent := Parallel.Event Nat NavigationIndex RequestEvent

/-- The server without requests. -/
def Server.start (index : NavigationIndex) : Server ν := ⟨index, fun _ => .none⟩

def Server.run (index : NavigationIndex) (events : List ServerEvent) : Server ν :=
  events.foldl (Parallel.step (turn h)) (.start index)

end Exchanges

section Bodies

/-- The bytes that an event brings. -/
def RequestEvent.bytes : RequestEvent → List UInt8
  | .data chunk => chunk
  | _ => []

def received (es : List (NavigationIndex × RequestEvent)) : List UInt8 := es.flatMap fun x => x.2.bytes

/-- A body that is still read: chunks within the limit, and nothing else. -/
def Unsettled (es : List (NavigationIndex × RequestEvent)) : Prop :=
  (∀ x ∈ es, ∃ chunk, x.2 = .data chunk) ∧ (received es).length ≤ MAX_BODY_BYTES

/-- The event that settles a body after these bytes, and as what: the end of the stream, an
error, or the chunk that goes over the limit. -/
inductive Settling (bytes : List UInt8) : RequestEvent → Option (List UInt8) → Prop where
  | finish : Settling bytes .finish (some bytes)
  | fail : Settling bytes .fail none
  | exceed (chunk : List UInt8) (long : MAX_BODY_BYTES < (bytes ++ chunk).length) :
      Settling bytes (.data chunk) none

/-- The first event that settles the body, the index at that time, and the body. -/
def SettlesAs (es : List (NavigationIndex × RequestEvent)) (index : NavigationIndex)
    (body : Option (List UInt8)) : Prop :=
  ∃ before e after, es = before ++ (index, e) :: after ∧ Unsettled before ∧
    Settling (received before) e body

/-- The event is not the head of a request. -/
def RequestEvent.ofBody : RequestEvent → Prop
  | .head _ _ => False
  | _ => True

theorem unsettled_or_settles {es : List (NavigationIndex × RequestEvent)}
    (bodies : ∀ x ∈ es, x.2.ofBody) : Unsettled es ∨ ∃ index body, SettlesAs es index body := by
  induction es using List.reverseRecOn with
  | nil => exact .inl ⟨nofun, Nat.zero_le _⟩
  | append_singleton es x ih =>
    rcases ih fun y member => bodies y (List.mem_append_left _ member) with
      unsettled | ⟨index, body, before, e, after, rfl, settles⟩
    · obtain ⟨index, e⟩ := x
      have own := bodies (index, e) (by simp)
      cases e with
      | head method url => exact own.elim
      | finish => exact .inr ⟨index, _, es, _, [], rfl, unsettled, .finish⟩
      | fail => exact .inr ⟨index, _, es, _, [], rfl, unsettled, .fail⟩
      | data chunk =>
        have more : received (es ++ [(index, .data chunk)]) = received es ++ chunk := by
          simp [received, RequestEvent.bytes]
        by_cases long : MAX_BODY_BYTES < (received es ++ chunk).length
        · exact .inr ⟨index, _, es, _, [], rfl, unsettled, .exceed chunk long⟩
        · refine .inl ⟨fun y member => ?_, ?_⟩
          · rcases List.mem_append.1 member with early | last
            · exact unsettled.1 y early
            · exact ⟨chunk, congrArg Prod.snd (List.mem_singleton.1 last)⟩
          · rw [more]
            omega
    · exact .inr ⟨index, body, before, e, after ++ [x], by simp, settles⟩

variable {ν : Type} (h : Handlers ν)

/-- While a body is read nothing is sent, and the chunks are kept. -/
theorem reading_foldl (endpoint : Endpoint) (replies : List (Reply ν))
    {es : List (NavigationIndex × RequestEvent)} (unsettled : Unsettled es) :
    ∃ chunks, chunks.flatten = received es ∧
      es.foldl (fun q x => turn h x.1 q x.2) ⟨some ⟨endpoint, [], 0, false⟩, true, replies⟩ =
        ⟨some ⟨endpoint, chunks, (received es).length, false⟩, true, replies⟩ := by
  induction es using List.reverseRecOn with
  | nil => exact ⟨[], rfl, rfl⟩
  | append_singleton es x ih =>
    obtain ⟨index, e⟩ := x
    obtain ⟨chunk, rfl⟩ : ∃ chunk, e = .data chunk := unsettled.1 (index, e) (by simp)
    have more : received (es ++ [(index, .data chunk)]) = received es ++ chunk := by
      simp [received, RequestEvent.bytes]
    have within := unsettled.2
    rw [more, List.length_append] at within
    obtain ⟨chunks, whole, there⟩ :=
      ih ⟨fun y member => unsettled.1 y (List.mem_append_left _ member), by omega⟩
    refine ⟨chunks ++ [chunk], by rw [more, ← whole]; simp, ?_⟩
    rw [List.foldl_append, there, List.foldl_cons, List.foldl_nil, turn]
    dsimp only
    rw [if_neg (by omega), more, List.length_append]

/-- What reaches the client of a body: the reply to one that ended, nothing when it was refused
or its stream failed. -/
def Handlers.delivered (index : NavigationIndex) (endpoint : Endpoint) (body : Option (List UInt8)) :
    List (Reply ν) :=
  body.toList.map fun bytes => h.reply index endpoint (some bytes)

/-- The event that settles a body is answered, when the socket is still open. -/
theorem turn_settling (endpoint : Endpoint) {chunks : List (List UInt8)} {e : RequestEvent}
    {body : Option (List UInt8)} (index : NavigationIndex) (replies : List (Reply ν))
    (settling : Settling chunks.flatten e body) :
    ∃ (r : Reading) (connected : Bool), r.settled = true ∧
      turn h index ⟨some ⟨endpoint, chunks, chunks.flatten.length, false⟩, true, replies⟩ e =
        ⟨some r, connected, replies ++ h.delivered index endpoint body⟩ := by
  cases settling with
  | finish => exact ⟨⟨endpoint, chunks, chunks.flatten.length, true⟩, true, rfl, rfl⟩
  | fail =>
    refine ⟨⟨endpoint, chunks, chunks.flatten.length, true⟩, false, rfl, ?_⟩
    exact congrArg (Exchange.mk _ _) (List.append_nil replies).symm
  | exceed chunk long =>
    rw [List.length_append] at long
    refine ⟨⟨endpoint, chunks, chunks.flatten.length + chunk.length, true⟩, false, rfl, ?_⟩
    rw [turn]
    dsimp only
    rw [if_pos long]
    exact congrArg (Exchange.mk _ _) (List.append_nil replies).symm

/-- Once a body is settled nothing more is sent. -/
theorem turn_settled {r : Reading} (settled : r.settled = true) (index : NavigationIndex)
    (connected : Bool) (replies : List (Reply ν)) {e : RequestEvent} (ofBody : e.ofBody) :
    ∃ (r' : Reading) (connected' : Bool), r'.settled = true ∧
      turn h index ⟨some r, connected, replies⟩ e = ⟨some r', connected', replies⟩ := by
  cases e with
  | head method url => exact ofBody.elim
  | finish => exact ⟨r, connected, settled, if_pos settled⟩
  | fail => exact ⟨r, false, settled, if_pos settled⟩
  | data chunk =>
    rw [turn]
    dsimp only
    split
    · exact ⟨{ r with totalBytes := r.totalBytes + chunk.length }, false, settled, if_pos settled⟩
    · exact ⟨⟨r.endpoint, r.chunks ++ [chunk], r.totalBytes + chunk.length, r.settled⟩, connected,
        settled, rfl⟩

theorem settled_foldl {r : Reading} (settled : r.settled = true) (connected : Bool)
    (replies : List (Reply ν)) {es : List (NavigationIndex × RequestEvent)}
    (bodies : ∀ x ∈ es, x.2.ofBody) :
    (es.foldl (fun q x => turn h x.1 q x.2) ⟨some r, connected, replies⟩).replies = replies := by
  induction es generalizing r connected with
  | nil => rfl
  | cons x es ih =>
    obtain ⟨r', connected', still, there⟩ :=
      turn_settled h settled x.1 connected replies (bodies x List.mem_cons_self)
    rw [List.foldl_cons, there]
    exact ih still connected' fun y member => bodies y (List.mem_cons_of_mem _ member)

/-- A request whose body is not read goes on without it. -/
theorem idle_foldl (replies : List (Reply ν)) {es : List (NavigationIndex × RequestEvent)}
    (bodies : ∀ x ∈ es, x.2.ofBody) :
    es.foldl (fun q x => turn h x.1 q x.2) ⟨none, true, replies⟩ = ⟨none, true, replies⟩ := by
  induction es with
  | nil => rfl
  | cons x es ih =>
    have idle : turn h x.1 ⟨none, true, replies⟩ x.2 = ⟨none, true, replies⟩ := by
      have own := bodies x List.mem_cons_self
      cases e : x.2 with
      | head method url =>
        rw [e] at own
        exact own.elim
      | _ => rfl
    rw [List.foldl_cons, idle]
    exact ih fun y member => bodies y (List.mem_cons_of_mem _ member)

/-- A body that settles is answered once, or not at all. -/
theorem settling_foldl (endpoint : Endpoint) {es : List (NavigationIndex × RequestEvent)}
    (bodies : ∀ x ∈ es, x.2.ofBody) {index : NavigationIndex} {body : Option (List UInt8)}
    (settles : SettlesAs es index body) :
    (es.foldl (fun q x => turn h x.1 q x.2) ⟨some ⟨endpoint, [], 0, false⟩, true, []⟩).replies =
      h.delivered index endpoint body := by
  obtain ⟨before, e, after, rfl, unsettled, settling⟩ := settles
  obtain ⟨chunks, whole, there⟩ := reading_foldl h endpoint [] unsettled
  rw [← whole] at settling
  obtain ⟨r, connected, settled, answered⟩ := turn_settling h endpoint index [] settling
  rw [List.foldl_append, there, List.foldl_cons, ← whole, answered]
  exact settled_foldl h settled connected _ fun y member => bodies y (by simp [member])

/-- What is kept of a body is within the limit. -/
def Exchange.Bounded (x : Exchange ν) : Prop :=
  ∀ r, x.reading = some r →
    r.chunks.flatten.length ≤ r.totalBytes ∧ r.chunks.flatten.length ≤ MAX_BODY_BYTES

theorem Exchange.Bounded.send {x : Exchange ν} (bounded : x.Bounded) (reply : Reply ν) :
    (x.send reply).Bounded := by
  unfold Exchange.send
  split
  · exact bounded
  · exact bounded

theorem Exchange.Bounded.settle {x : Exchange ν} {r : Reading} (index : NavigationIndex)
    (body : Option (List UInt8))
    (bounded : r.chunks.flatten.length ≤ r.totalBytes ∧ r.chunks.flatten.length ≤ MAX_BODY_BYTES) :
    (Mcp.settle h index x r body).Bounded := by
  unfold Mcp.settle
  split
  · rintro r' ⟨⟩
    exact bounded
  · apply Exchange.Bounded.send
    rintro r' ⟨⟩
    exact bounded

theorem Exchange.Bounded.turn (index : NavigationIndex) (x : Exchange ν) (e : RequestEvent)
    (bounded : x.Bounded) : (Mcp.turn h index x e).Bounded := by
  unfold Mcp.turn
  cases e with
  | head method url =>
    dsimp only
    split
    · rintro r ⟨⟩
      exact ⟨Nat.le_refl 0, Nat.zero_le _⟩
    · exact bounded.send _
  | data chunk =>
    dsimp only
    split
    · exact bounded
    · next r reading =>
      have before := bounded r reading
      split
      · exact .settle h index .none ⟨by dsimp only; omega, before.2⟩
      · rintro r' ⟨⟩
        simp only [List.flatten_append, List.length_append, List.flatten_cons, List.flatten_nil,
          List.append_nil]
        omega
  | finish =>
    dsimp only
    split
    · exact bounded
    · next r reading => exact .settle h index _ (bounded r reading)
  | fail =>
    dsimp only
    split
    · exact bounded
    · next r reading => exact .settle h index _ (bounded r reading)

end Bodies

section Calls

variable (index : NavigationIndex) {ν : Type}

/-- The id that a response carries. -/
def Body.id : Body ν → Option (Value ν)
  | .rpcResult id _ | .rpcError id _ _ => some id
  | _ => none

theorem id_bodyOf (id : Value ν) (reply : McpReply) : (bodyOf id reply).id = some id := by
  cases reply with
  | content result => rfl
  | error code message => rfl

theorem id_answerMethod (vtable handler : NavigationIndex → Args ν → VtableResolutionResult)
    (r id : Value ν) : (answerMethod index vtable handler r id).id = some id := by
  unfold answerMethod
  dsimp only
  split
  · rfl
  · split
    · rfl
    · split
      · exact id_bodyOf id _
      · rfl

end Calls

section Runs

variable {ν : Type} (h : Handlers ν)

theorem parties_run (index : NavigationIndex) (events : List ServerEvent) (c : Nat) :
    (Server.run h index events).parties c =
      (Parallel.seenBy c index events).foldl (fun q x => turn h x.1 q x.2) .none :=
  Parallel.parties_foldl (turn h) events (Server.start index) c

/-- In every run, however the events of the requests and the changes of the index are
interleaved, a request is answered from its own events: at once when it needs no body, else
once its body has ended within the limit, on the index of that moment. Nothing is delivered
before, and nothing at all when the body goes over the limit or its stream fails. An answered
JSON-RPC call carries the id of the call. No request makes the server keep more than the
limit. -/
theorem server_replies (index : NavigationIndex) (events : List ServerEvent) (c : Nat) :
    (∀ now method url es, Parallel.seenBy c index events = (now, .head method url) :: es →
      (∀ x ∈ es, x.2.ofBody) →
      (endpointOf method url = none →
        ((Server.run h index events).parties c).replies = [answerHead now method url]) ∧
      ∀ endpoint, endpointOf method url = some endpoint →
        (Unsettled es → ((Server.run h index events).parties c).replies = []) ∧
        (¬Unsettled es → ∃ later body, SettlesAs es later body) ∧
        (∀ later, SettlesAs es later none → ((Server.run h index events).parties c).replies = []) ∧
        ∀ later bytes, SettlesAs es later (some bytes) →
          ((Server.run h index events).parties c).replies = [h.reply later endpoint (some bytes)] ∧
          ∀ r id, endpoint = .mcp → h.parse (h.decode bytes) = some r → r.get "id" = some id →
            ∃ b, h.reply later endpoint (some bytes) = ⟨200, some b⟩ ∧ b.id = some id) ∧
    ∀ r, ((Server.run h index events).parties c).reading = some r →
      r.chunks.flatten.length ≤ MAX_BODY_BYTES := by
  constructor
  · intro now method url es own bodies
    rw [parties_run, own, List.foldl_cons]
    constructor
    · intro direct
      have answered : turn h now .none (.head method url) = ⟨none, true, [answerHead now method url]⟩ := by
        rw [turn, direct]
        rfl
      rw [answered, idle_foldl h _ bodies]
    · intro endpoint reads
      have opened : turn h now .none (.head method url) = ⟨some ⟨endpoint, [], 0, false⟩, true, []⟩ := by
        rw [turn, reads]
        rfl
      rw [opened]
      refine ⟨fun unsettled => ?_, fun settled => (unsettled_or_settles bodies).resolve_left settled,
        fun later settles => settling_foldl h endpoint bodies settles,
        fun later bytes settles => ⟨settling_foldl h endpoint bodies settles, ?_⟩⟩
      · obtain ⟨chunks, -, there⟩ := reading_foldl h endpoint [] unsettled
        rw [there]
      · rintro r id rfl parsed has
        refine ⟨answerMethod later h.vtable h.handler r id, ?_, id_answerMethod later _ _ r id⟩
        show answerMcp later h.parse h.vtable h.handler (h.decode bytes) = _
        unfold answerMcp
        rw [parsed]
        cases r with
        | null => cases has
        | _ => simp only [has]
  · intro r here
    have start : ∀ d, ((Server.start index : Server ν).parties d).Bounded := by
      rintro d r' ⟨⟩
    have bounded := Parallel.parties_invariant (Exchange.Bounded.turn h) events start c
    exact (bounded r here).2

/-- A server whose bodies all are a call of `ping` with the id 1. -/
def pingHandlers : Handlers Nat where
  decode _ := ""
  parse _ := some (.object [("id", .number 1), ("method", .string "ping")])
  vtable _ _ := .notFound ""
  handler _ _ := .notFound ""

/-- A call of an unknown method in two chunks, with another request in between. -/
theorem server_replies_ping :
    ((Server.run pingHandlers createEmptyIndex
      [.own 0 (.head "POST" "/mcp"), .own 0 (.data [123]), .own 1 (.head "GET" "/index_status"),
        .own 0 (.data [125]), .own 0 .finish]).parties 0).replies =
      [⟨200, some (.rpcError (.number 1) (-32601) "Method not found: ping")⟩] := by
  let es : List (NavigationIndex × RequestEvent) := [(createEmptyIndex, .data [123]),
    (createEmptyIndex, .data [125]), (createEmptyIndex, .finish)]
  have bodies : ∀ x ∈ es, x.2.ofBody := by simp [es, RequestEvent.ofBody]
  have settles : SettlesAs es createEmptyIndex (some [123, 125]) := by
    refine ⟨es.take 2, .finish, [], rfl, ⟨?_, by decide⟩, .finish⟩
    simp [es]
  have replies := ((server_replies pingHandlers createEmptyIndex
    [.own 0 (.head "POST" "/mcp"), .own 0 (.data [123]), .own 1 (.head "GET" "/index_status"),
      .own 0 (.data [125]), .own 0 .finish] 0).1 createEmptyIndex "POST" "/mcp" es rfl bodies).2 .mcp rfl
  exact (replies.2.2.2 createEmptyIndex [123, 125] settles).1

end Runs

end LibJuno.Mcp
