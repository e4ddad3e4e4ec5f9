import CrustyDB.Server.Commands

/-! # Requests and responses on the connection

A client sends commands to the server over a TCP stream and the server sends a response to each.

A request is the CBOR of a `CommandWithArgs` and nothing else (`sendRequest`); `readCommand` makes
one read into a buffer of 1024 bytes and takes what it got for one request.  The server therefore
reads the commands sent if and only if the stream is cut exactly between the requests
(`readCommands_eq_sent_iff`); two requests that arrive together are both lost
(`readCommands_together`), although the bytes do determine the requests (`sendRequests_injective`).

A response is preceded by its length in eight bytes (`sendResponse`), and `receiveResponse` reads
until it has that many: the responses are received in order however the stream is cut
(`receiveResponses_eq_sent`). -/

namespace CrustyDB

open Socket List Stateful

/-- The errors of the connection code. -/
inductive WireError where
  | io (msg : String)
  | serialization (msg : String)
  | crusty (msg : String)
deriving DecidableEq, Repr

variable {Q : Type}

/-! ### The client -/

/-- `write_all` and `read` as the connection code calls them: an I/O error becomes its text. -/
def withIo {σ α : Type} (x : EStateM String σ α) : EStateM WireError σ α := fun s =>
  match x s with
  | .ok a s' => .ok a s'
  | .error e s' => .error (.io e) s'

theorem withIo_ok {σ α : Type} {x : EStateM String σ α} {s s' : σ} {a : α} (h : x s = .ok a s') :
    withIo x s = .ok a s' := by
  unfold withIo
  rw [h]

theorem of_withIo_ok {σ α : Type} {x : EStateM String σ α} {s s' : σ} {a : α}
    (h : withIo x s = .ok a s') : x s = .ok a s' := by
  unfold withIo at h
  split at h
  · rename_i hx
    cases h
    exact hx
  · cases h

/-- Send a request; `false` when it could not be serialised or written. -/
def sendRequest (serde : Socket.Serde CommandWithArgs) (request : CommandWithArgs) (s : Sink String) :
    Bool × Sink String :=
  match serde.toVec request with
  | .error _ => (false, s)
  | .ok bytes =>
    match Sink.writeAll bytes s with
    | .ok _ s' => (true, s')
    | .error _ s' => (false, s')

/-- Send requests until one fails. -/
def sendRequests (serde : Socket.Serde CommandWithArgs) :
    List CommandWithArgs → Sink String → Bool × Sink String
  | [], s => (true, s)
  | request :: requests, s =>
    match sendRequest serde request s with
    | (true, s') => sendRequests serde requests s'
    | (false, s') => (false, s')

/-- Fill a buffer of `n` bytes. -/
def readExact (n : ℕ) : EStateM String (Source String) (List UInt8) := do
  let bs ← Source.readLoop n n n
  if bs.length < n then throw "failed to fill whole buffer" else pure bs

/-- `u64::from_be_bytes`. -/
def fromBeBytes (bs : List UInt8) : ℕ :=
  match Cbor.takeBe bs.length 0 bs with
  | some (n, _) => n
  | none => 0

/-- The most bytes that are sent or received in one call. -/
def chunkSize : ℕ := 1024 * 32

/-- Receive the bytes of one response. -/
def receiveResponse : EStateM WireError (Source String) (List UInt8) := do
  let lengthBytes ← withIo (readExact 8)
  let responseLength := fromBeBytes lengthBytes
  let responseData ← withIo (Source.readLoop chunkSize responseLength responseLength)
  if responseData.length ≠ responseLength then throw (.crusty "Incomplete response received")
  else pure responseData

/-- The next `n` responses. -/
def receiveResponses : ℕ → EStateM WireError (Source String) (List (List UInt8))
  | 0 => pure []
  | n + 1 => do
    let data ← receiveResponse
    let rest ← receiveResponses n
    pure (data :: rest)

/-! ### The server -/

/-- Read a command; `none` closes the connection. -/
def readCommand (serde : Socket.Serde CommandWithArgs) (s : Source String) :
    Option CommandWithArgs × Source String :=
  match Source.read 1024 s with
  | .ok buffer s' => if buffer = [] then (none, s') else (serde.fromSlice buffer, s')
  | .error _ s' => (none, s')

/-- The commands of a connection, in the order in which the server reads them: the loop of
`handle_client_request`, with at most `fuel` rounds. -/
def readCommands (serde : Socket.Serde CommandWithArgs) : ℕ → Source String → List CommandWithArgs
  | 0, _ => []
  | fuel + 1, s =>
    match readCommand serde s with
    | (some c, s') => c :: readCommands serde fuel s'
    | (none, _) => []

/-- The response that is sent for `response`. -/
def Response.quieted (quietMode : Bool) (response : Response Q) : Response Q :=
  if quietMode then
    match response with
    | systemErr _ | queryExecutionError _ | quietErr => quietErr
    | shutdown fromClient => shutdown fromClient
    | _ => quietOk
  else response

/-- Write `bytes` from `start` on, in chunks. -/
def writeChunks (bytes : List UInt8) : ℕ → ℕ → EStateM String (Sink String) Unit
  | 0, _ => pure ()
  | fuel + 1, start =>
    if start < bytes.length then do
      let stop := min (start + chunkSize) bytes.length
      Sink.writeAll ((bytes.take stop).drop start)
      writeChunks bytes fuel stop
    else pure ()

/-- Send a response. -/
def sendResponse (serde : Socket.Serde (Response Q)) (response : Response Q) (quietMode : Bool) :
    EStateM WireError (Sink String) Unit :=
  match serde.toVec (response.quieted quietMode) with
  | .error e => throw (.serialization e)
  | .ok responseBytes => do
    withIo (Sink.writeAll (Cbor.beBytes 8 responseBytes.length))
    withIo (writeChunks responseBytes responseBytes.length 0)

/-- Send responses, each under its own quiet mode. -/
def sendResponses (serde : Socket.Serde (Response Q)) :
    List (Response Q × Bool) → EStateM WireError (Sink String) Unit
  | [] => pure ()
  | (response, quietMode) :: responses => do
    sendResponse serde response quietMode
    sendResponses serde responses

/-! ### Requests -/

variable {s s' : Sink String}

theorem sendRequest_true {serde : Socket.Serde CommandWithArgs} {request : CommandWithArgs}
    (h : sendRequest serde request s = (true, s')) :
    ∃ bytes, serde.toVec request = .ok bytes ∧ s'.written = s.written ++ bytes := by
  unfold sendRequest at h
  split at h
  · cases h
  · rename_i bytes hbytes
    split at h
    · rename_i u s₁ hwrite
      cases h
      exact ⟨bytes, hbytes, Sink.writeAll_ok hwrite⟩
    · cases h

/-- What the client wrote when all its requests were sent. -/
theorem sendRequests_true {serde : Socket.Serde CommandWithArgs} {requests : List CommandWithArgs}
    (h : sendRequests serde requests s = (true, s')) :
    ∃ sent : List (CommandWithArgs × List UInt8), sent.map Prod.fst = requests ∧
      (∀ p ∈ sent, serde.toVec p.1 = .ok p.2) ∧
      s'.written = s.written ++ (sent.map Prod.snd).flatten := by
  induction requests generalizing s with
  | nil =>
    cases h
    exact ⟨[], rfl, by simp, by simp⟩
  | cons request requests ih =>
    unfold sendRequests at h
    split at h
    · rename_i s₁ hsend
      obtain ⟨bytes, hbytes, hw⟩ := sendRequest_true hsend
      obtain ⟨sent, rfl, hsent, hw'⟩ := ih h
      refine ⟨(request, bytes) :: sent, rfl, ?_, ?_⟩
      · intro p hp
        cases hp with
        | head => exact hbytes
        | tail _ hp => exact hsent p hp
      · rw [hw', hw]
        simp
    · cases h

theorem readCommands_eq (serde : Socket.Serde CommandWithArgs) (fuel : ℕ) (s : Source String) :
    readCommands serde fuel s = Socket.Serde.decoded serde.fromSlice (Source.reads 1024 fuel s) := by
  induction fuel generalizing s with
  | zero => rfl
  | succ fuel ih =>
    unfold readCommands readCommand Source.reads
    cases hread : Source.read 1024 s with
    | error e s' => rfl
    | ok bs s' =>
      dsimp only
      by_cases hbs : bs = []
      · simp only [hbs, if_true]
        rfl
      · simp only [hbs, if_false]
        unfold Socket.Serde.decoded
        cases hc : serde.fromSlice bs with
        | none => rfl
        | some c =>
          dsimp only
          rw [ih]

/-- The byte string that a value is written as. -/
def encoding {α : Type} (serde : Socket.Serde α) (a : α) : List UInt8 := ((serde.toVec a).toOption).getD []

/-- The server reads the commands that the client sent if and only if each of its reads into the
buffer of 1024 bytes gets exactly the bytes of one command. -/
theorem readCommands_eq_sent_iff (serde : Socket.Serde CommandWithArgs) (hround : serde.RoundTrips)
    (hstream : Streams serde.deserialize) (requests : List CommandWithArgs)
    (client client' : Sink String) (hfresh : client.written = [])
    (hsend : sendRequests serde requests client = (true, client'))
    (server : Source String) (harrive : server.pending = client'.written)
    (fuel : ℕ) (hfuel : server.pending.length ≤ fuel) :
    readCommands serde fuel server = requests ↔
      Source.reads 1024 fuel server = requests.map (encoding serde) := by
  obtain ⟨sent, rfl, hsent, hw⟩ := sendRequests_true hsend
  have henc : (sent.map Prod.fst).map (encoding serde) = sent.map Prod.snd := by
    rw [List.map_map]
    apply List.map_congr_left
    intro p hp
    show ((serde.toVec p.1).toOption).getD [] = p.2
    rw [hsent p hp]
    rfl
  rw [readCommands_eq, henc]
  apply Socket.Serde.decoded_eq_iff hstream
  · exact fun r hr => Source.ne_nil_of_mem_reads hr
  · exact fun p hp => hround p.1 p.2 (hsent p hp)
  · rw [Source.flatten_reads (by decide) hfuel, harrive, hw, hfresh, List.nil_append]

/-- The command `\t`, which does nothing. -/
def testRequest : CommandWithArgs := ⟨.system .test, []⟩

/-- A connection on which nothing has been written and every write succeeds. -/
def freshSink : Sink String := ⟨[], 0, fun _ => none⟩

theorem encodeRequest_testRequest : encodeRequest testRequest =
    [0xa2, 0x67, 0x63, 0x6f, 0x6d, 0x6d, 0x61, 0x6e, 0x64, 0xa1, 0x66, 0x53, 0x79, 0x73, 0x74, 0x65,
      0x6d, 0x64, 0x54, 0x65, 0x73, 0x74, 0x64, 0x61, 0x72, 0x67, 0x73, 0x80] := by
  decide

theorem toVec_testRequest : commandSerde.toVec testRequest = .ok (encodeRequest testRequest) := by
  rw [encodeRequest_testRequest]
  rfl

theorem sendRequests_testRequest :
    sendRequests commandSerde [testRequest, testRequest] freshSink =
      (true, ⟨encodeRequest testRequest ++ encodeRequest testRequest, 2, fun _ => none⟩) := by
  simp [sendRequests, sendRequest, toVec_testRequest, Sink.writeAll, freshSink]

/-- The requests `\t` and `\t`, each in a piece of its own. -/
theorem readCommands_eq_sent_apart :
    readCommands commandSerde 56
      ⟨[⟨encodeRequest testRequest, by decide⟩, ⟨encodeRequest testRequest, by decide⟩], .closed⟩ =
        [testRequest, testRequest] := by
  apply (readCommands_eq_sent_iff commandSerde commandSerde_roundTrips commandSerde_streams
    [testRequest, testRequest] freshSink _ rfl sendRequests_testRequest
    ⟨[⟨encodeRequest testRequest, by decide⟩, ⟨encodeRequest testRequest, by decide⟩], .closed⟩
    (by simp [Source.pending]) 56 (by decide)).mpr
  have henc : encoding commandSerde testRequest = encodeRequest testRequest := by
    unfold encoding
    rw [toVec_testRequest]
    rfl
  rw [List.map_cons, List.map_singleton, henc]
  decide

/-- The requests `\t` and `\t` that arrive together: the server reads neither. -/
theorem readCommands_together :
    ∃ client server, sendRequests commandSerde [testRequest, testRequest] freshSink = (true, client) ∧
      server.pending = client.written ∧
      ∀ fuel, readCommands commandSerde fuel server = [] := by
  refine ⟨_, ⟨[⟨encodeRequest testRequest ++ encodeRequest testRequest, by decide⟩], .closed⟩,
    sendRequests_testRequest, by simp [Source.pending], ?_⟩
  have hread := takes_request (c := testRequest) (by decide) (encodeRequest testRequest)
  -- the reader stops after the first request, so the slice has bytes left
  have hslice : commandSerde.fromSlice (encodeRequest testRequest ++ encodeRequest testRequest) =
      none := by
    unfold Socket.Serde.fromSlice
    rw [show commandSerde.deserialize = takeRequest from rfl, hread, encodeRequest_testRequest]
  intro fuel
  cases fuel with
  | zero => rfl
  | succ fuel =>
    have hcommand : readCommand commandSerde
        ⟨[⟨encodeRequest testRequest ++ encodeRequest testRequest, by decide⟩], .closed⟩ =
          (none, ⟨[], .closed⟩) := by
      unfold readCommand Source.read
      dsimp only
      rw [dif_neg (by decide)]
      dsimp only
      rw [if_neg (by decide), hslice]
    unfold readCommands
    rw [hcommand]

/-- Requests have no frames, but what the client wrote determines the requests that it sent. -/
theorem sendRequests_injective (serde : Socket.Serde CommandWithArgs) (hround : serde.RoundTrips)
    (hstream : Streams serde.deserialize) (hne : ∀ request, serde.toVec request ≠ .ok [])
    {requests requests' : List CommandWithArgs} {client client₁ client' client₂ : Sink String}
    (hfresh : client.written = []) (hfresh' : client'.written = [])
    (hsend : sendRequests serde requests client = (true, client₁))
    (hsend' : sendRequests serde requests' client' = (true, client₂))
    (hwritten : client₁.written = client₂.written) : requests = requests' := by
  obtain ⟨sent, rfl, hsent, hw⟩ := sendRequests_true hsend
  obtain ⟨sent', rfl, hsent', hw'⟩ := sendRequests_true hsend'
  rw [hw, hw', hfresh, hfresh', List.nil_append, List.nil_append] at hwritten
  have hread : ∀ p : CommandWithArgs × List UInt8, serde.toVec p.1 = .ok p.2 →
      serde.fromSlice p.2 = some p.1 ∧ p.2 ≠ [] :=
    fun p hp => ⟨hround p.1 p.2 hp, fun hnil => hne p.1 (hnil ▸ hp)⟩
  rw [Socket.Serde.flatten_injective hstream (fun p hp => hread p (hsent p hp))
    (fun p hp => hread p (hsent' p hp)) hwritten]

theorem commandSerde_toVec_ne_nil (request : CommandWithArgs) : commandSerde.toVec request ≠ .ok [] := by
  intro h
  have hread := commandSerde_roundTrips request [] h
  cases hread

/-- The requests `\t` and `\t` on two connections, of which one has written before. -/
theorem sendRequests_injective_testRequest : ∃ client₁ client₂,
    sendRequests commandSerde [testRequest, testRequest] freshSink = (true, client₁) ∧
    sendRequests commandSerde [testRequest, testRequest] ⟨[], 5, fun _ => none⟩ = (true, client₂) ∧
    client₁.written = client₂.written ∧
    [testRequest, testRequest] = [testRequest, testRequest] := by
  have hsend : sendRequests commandSerde [testRequest, testRequest] ⟨[], 5, fun _ => none⟩ =
      (true, ⟨encodeRequest testRequest ++ encodeRequest testRequest, 7, fun _ => none⟩) := by
    simp [sendRequests, sendRequest, toVec_testRequest, Sink.writeAll]
  exact ⟨_, _, sendRequests_testRequest, hsend, rfl,
    sendRequests_injective commandSerde commandSerde_roundTrips commandSerde_streams
      commandSerde_toVec_ne_nil rfl rfl sendRequests_testRequest hsend rfl⟩

/-! ### Responses -/

/-- The bytes of a response on the stream. -/
def frame (bytes : List UInt8) : List UInt8 := Cbor.beBytes 8 bytes.length ++ bytes

theorem writeChunks_ok {bytes : List UInt8} {fuel start : ℕ} (hfuel : bytes.length ≤ start + fuel)
    (h : writeChunks bytes fuel start s = .ok () s') :
    s'.written = s.written ++ bytes.drop start := by
  induction fuel generalizing start s with
  | zero =>
    cases h
    rw [drop_of_length_le (by omega), append_nil]
  | succ fuel ih =>
    unfold writeChunks at h
    by_cases hstart : start < bytes.length
    · rw [if_pos hstart] at h
      obtain ⟨u, s₁, hw, h⟩ := of_bind_ok h
      have hpos : 0 < chunkSize := by decide
      have hstop : start ≤ min (start + chunkSize) bytes.length := by omega
      rw [ih (by omega) h, Sink.writeAll_ok hw, append_assoc]
      congr 1
      conv_rhs => rw [← take_append_drop (min (start + chunkSize) bytes.length) bytes]
      rw [drop_append_of_le_length (by rw [length_take]; omega)]
    · rw [if_neg hstart] at h
      cases h
      rw [drop_of_length_le (by omega), append_nil]

theorem sendResponse_ok {serde : Socket.Serde (Response Q)} {response : Response Q}
    {quietMode : Bool} (h : sendResponse serde response quietMode s = .ok () s') :
    ∃ bytes, serde.toVec (response.quieted quietMode) = .ok bytes ∧
      s'.written = s.written ++ frame bytes := by
  unfold sendResponse at h
  cases hbytes : serde.toVec (response.quieted quietMode) with
  | error e =>
    rw [hbytes] at h
    cases h
  | ok bytes =>
    rw [hbytes] at h
    dsimp only at h
    refine ⟨bytes, rfl, ?_⟩
    obtain ⟨u, s₁, hlen, h⟩ := of_bind_ok h
    rw [writeChunks_ok (by omega) (of_withIo_ok h), Sink.writeAll_ok (of_withIo_ok hlen),
      drop_zero, append_assoc]
    rfl

/-- What the server wrote when all its responses were sent. -/
theorem sendResponses_ok {serde : Socket.Serde (Response Q)} {responses : List (Response Q × Bool)}
    (h : sendResponses serde responses s = .ok () s') : ∃ sent : List (Response Q × List UInt8),
      sent.map Prod.fst = responses.map (fun r => r.1.quieted r.2) ∧
      (∀ p ∈ sent, serde.toVec p.1 = .ok p.2) ∧
      s'.written = s.written ++ (sent.map (fun p => frame p.2)).flatten := by
  induction responses generalizing s with
  | nil =>
    cases h
    exact ⟨[], rfl, by simp, by simp⟩
  | cons r responses ih =>
    obtain ⟨response, quietMode⟩ := r
    unfold sendResponses at h
    obtain ⟨u, s₁, hsend, h⟩ := of_bind_ok h
    obtain ⟨bytes, hbytes, hw⟩ := sendResponse_ok hsend
    obtain ⟨sent, hmap, hsent, hw'⟩ := ih h
    refine ⟨(response.quieted quietMode, bytes) :: sent, ?_, ?_, ?_⟩
    · simp [hmap]
    · intro p hp
      cases hp with
      | head => exact hbytes
      | tail _ hp => exact hsent p hp
    · rw [hw', hw]
      simp

theorem beBytes_length (w n : ℕ) : (Cbor.beBytes w n).length = w := by
  induction w with
  | zero => rfl
  | succ w ih => simp [Cbor.beBytes, ih]

theorem fromBeBytes_beBytes {n : ℕ} (hn : n < 2 ^ 64) : fromBeBytes (Cbor.beBytes 8 n) = n := by
  have h := Cbor.takeBe_beBytes 8 0 n []
  rw [append_nil] at h
  unfold fromBeBytes
  rw [beBytes_length, h]
  dsimp only
  omega

variable {later : List UInt8}

theorem readExact_ok {n : ℕ} (hn : 0 < n) {s : Source String} {taken : List UInt8}
    (hs : s.pending = taken ++ later) (htaken : taken.length = n) :
    ∃ s', readExact n s = .ok taken s' ∧ s'.pending = later := by
  obtain ⟨s', hloop, hp, -⟩ := Source.readLoop_ok hn le_rfl hs htaken
  refine ⟨s', ?_, hp⟩
  unfold readExact
  rw [bind_of_ok hloop, if_neg (by omega)]
  rfl

/-- A response that is on the stream is received, and what follows it stays there. -/
theorem receiveResponse_ok {s : Source String} {bytes : List UInt8} (hbytes : bytes.length < 2 ^ 64)
    (hs : s.pending = frame bytes ++ later) :
    ∃ s', receiveResponse s = .ok bytes s' ∧ s'.pending = later := by
  unfold frame at hs
  rw [append_assoc] at hs
  obtain ⟨s₁, hlen, hs₁⟩ := readExact_ok (by decide) hs (beBytes_length 8 _)
  obtain ⟨s₂, hdata, hs₂, -⟩ :=
    Source.readLoop_ok (show 0 < chunkSize by decide) le_rfl hs₁ rfl
  refine ⟨s₂, ?_, hs₂⟩
  unfold receiveResponse
  rw [bind_of_ok (withIo_ok hlen), fromBeBytes_beBytes hbytes,
    bind_of_ok (withIo_ok hdata), if_neg (by simp)]
  rfl

theorem receiveResponses_ok {s : Source String} {sent : List (List UInt8)}
    (hsent : ∀ bytes ∈ sent, bytes.length < 2 ^ 64)
    (hs : s.pending = (sent.map frame).flatten ++ later) :
    ∃ s', receiveResponses sent.length s = .ok sent s' ∧ s'.pending = later := by
  induction sent generalizing s with
  | nil => exact ⟨s, rfl, hs⟩
  | cons bytes sent ih =>
    rw [map_cons, flatten_cons, append_assoc] at hs
    obtain ⟨s₁, h₁, hs₁⟩ := receiveResponse_ok (hsent bytes mem_cons_self) hs
    obtain ⟨s₂, h₂, hs₂⟩ := ih (fun x hx => hsent x (mem_cons_of_mem _ hx)) hs₁
    refine ⟨s₂, ?_, hs₂⟩
    rw [length_cons, receiveResponses, bind_of_ok h₁, bind_of_ok h₂]
    rfl

/-- The client receives the responses that were sent, in order and however the stream is cut:
after `k` calls it has the first `k`, and the stream stands where the others start. -/
theorem receiveResponses_eq_sent (serde : Socket.Serde (Response Q)) (hround : serde.RoundTrips)
    (responses : List (Response Q × Bool)) (server server' : Sink String)
    (hfresh : server.written = []) (hsend : sendResponses serde responses server = .ok () server')
    (client : Source String) (later : List UInt8) (harrive : client.pending = server'.written ++ later)
    (k : ℕ) (hk : k ≤ responses.length) :
    ∃ received client', receiveResponses k client = .ok received client' ∧
      received.map serde.fromSlice =
        (responses.take k).map (fun r => some (r.1.quieted r.2)) ∧
      client'.pending =
        ((responses.drop k).map (fun r => frame (encoding serde (r.1.quieted r.2)))).flatten ++
          later := by
  obtain ⟨sent, hmap, hsent, hw⟩ := sendResponses_ok hsend
  have hlen := congrArg List.length hmap
  rw [List.length_map, List.length_map] at hlen
  have hsplit : client.pending = (((sent.take k).map Prod.snd).map frame).flatten ++
      (((sent.drop k).map (fun p => frame p.2)).flatten ++ later) := by
    rw [harrive, hw, hfresh, List.nil_append, ← List.append_assoc, List.map_map,
      show frame ∘ Prod.snd = fun p : Response Q × List UInt8 => frame p.2 from rfl,
      ← List.flatten_append, ← List.map_append, List.take_append_drop]
  obtain ⟨client', hrecv, hp⟩ := receiveResponses_ok (fun bytes hb => by
    obtain ⟨p, hp, rfl⟩ := List.mem_map.mp hb
    exact serde.short _ _ (hsent p (List.mem_of_mem_take hp))) hsplit
  rw [List.length_map, List.length_take, min_eq_left (by omega)] at hrecv
  refine ⟨(sent.take k).map Prod.snd, client', hrecv, ?_, ?_⟩
  · have htake := congrArg (List.take k) hmap
    rw [← List.map_take, ← List.map_take] at htake
    have hsome := congrArg (List.map some) htake
    rw [List.map_map, List.map_map] at hsome
    rw [List.map_map]
    refine Eq.trans (List.map_congr_left ?_) hsome
    intro p hp
    exact hround _ _ (hsent p (List.mem_of_mem_take hp))
  · have hdrop := congrArg (List.drop k) hmap
    rw [← List.map_drop, ← List.map_drop] at hdrop
    have henc := congrArg (List.map (fun r => frame (encoding serde r))) hdrop
    rw [List.map_map, List.map_map] at henc
    rw [hp]
    congr 2
    refine Eq.trans (List.map_congr_left ?_) henc
    intro p hp
    show frame p.2 = frame (((serde.toVec p.1).toOption).getD [])
    rw [hsent p (List.mem_of_mem_drop hp)]
    rfl

/-- The responses `Ok` and `SystemErr`, the second in quiet mode, on a stream that delivers each byte
alone. -/
theorem receiveResponses_bytewise :
    ∃ server, sendResponses responseSerde [(.ok, false), (.systemErr "no", true)] freshSink =
        .ok () server ∧
      ∀ client : Source String, client.pieces = server.written.map (fun b => ⟨[b], by simp⟩) →
      ∃ received client', receiveResponses 2 client = .ok received client' ∧
        received.map responseSerde.fromSlice = [some .ok, some .quietErr] ∧ client'.pending = [] := by
  refine ⟨⟨frame (encodeResponse .ok) ++ frame (encodeResponse .quietErr), 4, fun _ => none⟩, rfl, ?_⟩
  intro client hclient
  have harrive : client.pending =
      (frame (encodeResponse .ok) ++ frame (encodeResponse .quietErr)) ++ [] := by
    unfold Source.pending
    rw [hclient, List.flatMap_map, List.append_nil, List.flatMap_singleton']
  obtain ⟨received, client', hrecv, hmap, hp⟩ :=
    receiveResponses_eq_sent responseSerde responseSerde_roundTrips
      [(.ok, false), (.systemErr "no", true)] freshSink _ rfl rfl client [] harrive 2 le_rfl
  exact ⟨received, client', hrecv, hmap, hp⟩

end CrustyDB
