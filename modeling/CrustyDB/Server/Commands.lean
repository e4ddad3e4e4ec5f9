import CrustyDB.Index.Cbor
import CrustyDB.Lib.Socket

/-! # Commands, responses and their CBOR

What a client and the server say to each other, and the encoding that `serde_cbor` gives it: a
structure is a map with its field names as text keys, a variant without contents is its name and
one with contents is a map from its name to them.

The results about the connection (`Wire.lean`) are for any serialiser with the properties that the
library documents.  `commandSerde` and `responseSerde` are serialisers that have them: they read back
what they write (`commandSerde_roundTrips`, `responseSerde_roundTrips`), and the reader of commands is
streaming (`commandSerde_streams`). -/

namespace CrustyDB

open Socket List

/-! ### Commands and responses -/

/-- Commands about the state of the server. -/
inductive SystemCommand where
  | create | connect | reset | shutdown | closeConnection | quietMode | showDatabases | test | help
deriving DecidableEq, Repr

/-- Commands about a database. -/
inductive DBCommand where
  | executeSQL | registerQuery | runQueryFull | runQueryPartial | convertQuery | showTables
  | showQueries | generate | import_ | commit
deriving DecidableEq, Repr

inductive Command where
  | system (c : SystemCommand)
  | db (c : DBCommand)
deriving DecidableEq, Repr

/-- A request of the client. -/
structure CommandWithArgs where
  command : Command
  args : List String
deriving DecidableEq, Repr

/-- An answer of the server; `Q` is the type of query results, which the connection only carries. -/
inductive Response (Q : Type) where
  | ok
  | systemMsg (msg : String)
  | systemErr (msg : String)
  | queryResult (result : Q)
  | queryExecutionError (msg : String)
  | shutdown (fromClient : Bool)
  | quietOk
  | quietErr
deriving DecidableEq, Repr

/-! ### Data items -/

namespace Cbor

theorem takeBe_streams (w acc : ℕ) : Streams (takeBe w acc) := by
  induction w generalizing acc with
  | zero => exact Streams.pure acc
  | succ w ih =>
    intro bs n rest h more
    cases bs with
    | nil => cases h
    | cons b bs => exact ih _ h more

theorem argument_streams (info : ℕ) : Streams (argument info) := by
  unfold argument
  split_ifs
  · exact Streams.pure info
  · exact takeBe_streams 1 0
  · exact takeBe_streams 2 0
  · exact takeBe_streams 4 0
  · exact takeBe_streams 8 0
  · exact Streams.none

theorem takeHead_streams : Streams takeHead := by
  intro bs r rest h more
  cases bs with
  | nil => cases h
  | cons b bs =>
    obtain ⟨⟨n, rest'⟩, harg, hr⟩ := Option.map_eq_some_iff.mp h
    cases hr
    show (argument (b.toNat % 32) (bs ++ more)).map _ = _
    rw [argument_streams _ harg more]
    rfl

theorem takes_head {m n : ℕ} (hm : m < 8) (hn : n < 2 ^ 64) :
    Takes takeHead (head (32 * m) n) (m, n) := fun rest => takeHead_head hm hn rest

/-- Take `n` bytes. -/
def takeBytes (n : ℕ) : Take (List UInt8) := fun bs =>
  if n ≤ bs.length then some (bs.take n, bs.drop n) else none

theorem takeBytes_streams (n : ℕ) : Streams (takeBytes n) := by
  intro bs a rest h more
  unfold takeBytes at h ⊢
  split_ifs at h with hn
  cases h
  rw [if_pos (by rw [length_append]; omega), take_append_of_le_length hn,
    drop_append_of_le_length hn]

theorem takes_bytes (bs : List UInt8) : Takes (takeBytes bs.length) bs bs := by
  intro rest
  unfold takeBytes
  rw [if_pos (by simp), take_left, drop_left]

/-- A text. -/
def encodeString (s : String) : List UInt8 :=
  head 96 s.toByteArray.data.toList.length ++ s.toByteArray.data.toList

/-- The text that some bytes spell. -/
def asString (bs : List UInt8) : Take String :=
  if h : ByteArray.IsValidUTF8 ⟨bs.toArray⟩ then pure (String.fromUTF8 ⟨bs.toArray⟩ h)
  else fun _ => none

/-- The rest of a text whose head has been taken. -/
def textBody (n : ℕ) : Take String := takeBytes n >>= asString

/-- Take a text. -/
def takeString : Take String :=
  (takeHead : Take (ℕ × ℕ)) >>= fun r => if r.1 = 3 then textBody r.2 else fun _ => none

theorem textBody_streams (n : ℕ) : Streams (textBody n) := by
  apply Streams.bind (takeBytes_streams n)
  intro bs
  unfold asString
  split_ifs
  · exact Streams.pure _
  · exact Streams.none

theorem takeString_streams : Streams takeString := by
  apply Streams.bind takeHead_streams
  intro r
  split_ifs
  · exact textBody_streams r.2
  · exact Streams.none

theorem takes_textBody (s : String) :
    Takes (textBody s.toByteArray.data.toList.length) s.toByteArray.data.toList s := by
  apply (takes_bytes s.toByteArray.data.toList).bind_pure
  unfold asString
  rw [dif_pos s.isValidUTF8]
  rfl

variable {s : String}

theorem takes_string (hs : (encodeString s).length < 2 ^ 64) :
    Takes takeString (encodeString s) s := by
  unfold encodeString at hs
  rw [length_append] at hs
  apply Takes.bind (takes_head (m := 3) (by decide) (by omega))
  rw [if_pos rfl]
  exact takes_textBody s

/-- Take the head `(major, n)`. -/
def expectHead (major n : ℕ) : Take Unit :=
  (takeHead : Take (ℕ × ℕ)) >>= fun r => if r = (major, n) then pure () else fun _ => none

theorem expectHead_streams (major n : ℕ) : Streams (expectHead major n) := by
  apply Streams.bind takeHead_streams
  intro r
  split_ifs
  · exact Streams.pure ()
  · exact Streams.none

theorem takes_expectHead {m n : ℕ} (hm : m < 8) (hn : n < 2 ^ 64) :
    Takes (expectHead m n) (head (32 * m) n) () := by
  apply (takes_head hm hn).bind_pure
  rw [if_pos rfl]

/-- Take the text `s`. -/
def expectString (s : String) : Take Unit :=
  takeString >>= fun t => if t = s then pure () else fun _ => none

theorem expectString_streams (s : String) : Streams (expectString s) := by
  apply Streams.bind takeString_streams
  intro r
  split_ifs
  · exact Streams.pure ()
  · exact Streams.none

theorem takes_expectString (hs : (encodeString s).length < 2 ^ 64) :
    Takes (expectString s) (encodeString s) () := by
  apply (takes_string hs).bind_pure
  rw [if_pos rfl]

/-- Take a value by its name. -/
def takeNamed {α : Type} (ofName : String → Option α) : Take α :=
  takeString >>= fun s => (ofName s).elim (fun _ => none) pure

theorem takeNamed_streams {α : Type} (ofName : String → Option α) : Streams (takeNamed ofName) := by
  apply Streams.bind takeString_streams
  intro s
  cases ofName s with
  | none => exact Streams.none
  | some a => exact Streams.pure a

theorem takes_named {α : Type} {ofName : String → Option α} {a : α} (ha : ofName s = some a)
    (hs : (encodeString s).length < 2 ^ 64) : Takes (takeNamed ofName) (encodeString s) a := by
  apply (takes_string hs).bind_pure
  rw [ha]
  rfl

/-- Take `n` texts. -/
def takeTexts : ℕ → Take (List String)
  | 0 => pure []
  | n + 1 => do
    let s ← takeString
    let rest ← takeTexts n
    pure (s :: rest)

theorem takeTexts_streams (n : ℕ) : Streams (takeTexts n) := by
  induction n with
  | zero => exact Streams.pure []
  | succ n ih =>
    apply Streams.bind takeString_streams
    intro s
    apply Streams.bind ih
    intro rest
    exact Streams.pure _

/-- An array of texts. -/
def encodeStrings (ss : List String) : List UInt8 :=
  head 128 ss.length ++ (ss.map encodeString).flatten

def takeStrings : Take (List String) :=
  (takeHead : Take (ℕ × ℕ)) >>= fun r => if r.1 = 4 then takeTexts r.2 else fun _ => none

theorem takeStrings_streams : Streams takeStrings := by
  apply Streams.bind takeHead_streams
  intro r
  split_ifs
  · exact takeTexts_streams r.2
  · exact Streams.none

theorem takes_texts {ss : List String} (hss : ((ss.map encodeString).flatten).length < 2 ^ 64) :
    Takes (takeTexts ss.length) (ss.map encodeString).flatten ss := by
  induction ss with
  | nil => exact Takes.pure []
  | cons s ss ih =>
    rw [map_cons, flatten_cons, length_append] at hss
    apply Takes.bind (takes_string (by omega))
    exact (ih (by omega)).bind_pure rfl

theorem length_le_flatten_encodeString (ss : List String) :
    ss.length ≤ ((ss.map encodeString).flatten).length := by
  induction ss with
  | nil => exact le_rfl
  | cons s ss ih =>
    have h := (head_length 96 s.toByteArray.data.toList.length).1
    rw [map_cons, flatten_cons, length_append, encodeString, length_append,
      length_cons]
    omega

theorem takes_strings {ss : List String} (hss : (encodeStrings ss).length < 2 ^ 64) :
    Takes takeStrings (encodeStrings ss) ss := by
  unfold encodeStrings at hss
  rw [length_append] at hss
  have hle := length_le_flatten_encodeString ss
  apply Takes.bind (takes_head (m := 4) (by decide) (by omega))
  rw [if_pos rfl]
  exact takes_texts (by omega)

end Cbor

open Cbor

/-! ### Commands -/

def SystemCommand.name : SystemCommand → String
  | create => "Create"
  | connect => "Connect"
  | reset => "Reset"
  | shutdown => "Shutdown"
  | closeConnection => "CloseConnection"
  | quietMode => "QuietMode"
  | showDatabases => "ShowDatabases"
  | test => "Test"
  | help => "Help"

def SystemCommand.ofName (s : String) : Option SystemCommand :=
  [create, connect, reset, shutdown, closeConnection, quietMode, showDatabases, test, help].find?
    (fun c => c.name == s)

def DBCommand.name : DBCommand → String
  | executeSQL => "ExecuteSQL"
  | registerQuery => "RegisterQuery"
  | runQueryFull => "RunQueryFull"
  | runQueryPartial => "RunQueryPartial"
  | convertQuery => "ConvertQuery"
  | showTables => "ShowTables"
  | showQueries => "ShowQueries"
  | generate => "Generate"
  | import_ => "Import"
  | commit => "Commit"

def DBCommand.ofName (s : String) : Option DBCommand :=
  [executeSQL, registerQuery, runQueryFull, runQueryPartial, convertQuery, showTables, showQueries,
    generate, import_, commit].find? (fun c => c.name == s)

theorem SystemCommand.ofName_name (c : SystemCommand) : ofName c.name = some c := by
  cases c <;> decide

theorem DBCommand.ofName_name (c : DBCommand) : ofName c.name = some c := by
  cases c <;> decide

def encodeCommand : Command → List UInt8
  | .system c => head 160 1 ++ (encodeString "System" ++ encodeString c.name)
  | .db c => head 160 1 ++ (encodeString "DB" ++ encodeString c.name)

/-- Take the contents of a command whose variant is known. -/
def takeVariant (variant : String) : Take Command :=
  if variant = "System" then takeNamed (fun s => (SystemCommand.ofName s).map .system)
  else if variant = "DB" then takeNamed (fun s => (DBCommand.ofName s).map .db)
  else fun _ => none

def takeCommand : Take Command := do
  expectHead 5 1
  let variant ← takeString
  takeVariant variant

theorem takeCommand_streams : Streams takeCommand := by
  apply Streams.bind (expectHead_streams 5 1)
  intro _
  apply Streams.bind takeString_streams
  intro variant
  unfold takeVariant
  split_ifs
  · exact takeNamed_streams _
  · exact takeNamed_streams _
  · exact Streams.none

theorem takes_command {c : Command} (hc : (encodeCommand c).length < 2 ^ 64) :
    Takes takeCommand (encodeCommand c) c := by
  cases c with
  | system c =>
    simp only [encodeCommand, length_append] at hc
    apply Takes.bind (takes_expectHead (m := 5) (by decide) (by decide))
    apply Takes.bind (takes_string (by omega))
    unfold takeVariant
    rw [if_pos rfl]
    exact takes_named (by rw [SystemCommand.ofName_name]; rfl) (by omega)
  | db c =>
    simp only [encodeCommand, length_append] at hc
    apply Takes.bind (takes_expectHead (m := 5) (by decide) (by decide))
    apply Takes.bind (takes_string (by omega))
    unfold takeVariant
    rw [if_neg (by decide), if_pos rfl]
    exact takes_named (by rw [DBCommand.ofName_name]; rfl) (by omega)

/-- `{"command": .., "args": [..]}` -/
def encodeRequest (c : CommandWithArgs) : List UInt8 :=
  head 160 2 ++ (encodeString "command" ++ (encodeCommand c.command ++
    (encodeString "args" ++ encodeStrings c.args)))

def takeRequest : Take CommandWithArgs := do
  expectHead 5 2
  expectString "command"
  let command ← takeCommand
  expectString "args"
  let args ← takeStrings
  pure ⟨command, args⟩

theorem takeRequest_streams : Streams takeRequest := by
  apply Streams.bind (expectHead_streams 5 2)
  intro _
  apply Streams.bind (expectString_streams "command")
  intro _
  apply Streams.bind takeCommand_streams
  intro command
  apply Streams.bind (expectString_streams "args")
  intro _
  apply Streams.bind takeStrings_streams
  intro args
  exact Streams.pure _

theorem takes_request {c : CommandWithArgs} (hc : (encodeRequest c).length < 2 ^ 64) :
    Takes takeRequest (encodeRequest c) c := by
  simp only [encodeRequest, length_append] at hc
  apply Takes.bind (takes_expectHead (m := 5) (by decide) (by decide))
  apply Takes.bind (takes_expectString (by omega))
  apply Takes.bind (takes_command (by omega))
  apply Takes.bind (takes_expectString (by omega))
  exact (takes_strings (by omega)).bind_pure rfl

/-- The serialiser with the encoding `encode` and the reader `take`; it refuses what is too long
for the memory. -/
def boundedSerde {α : Type} (encode : α → List UInt8) (take : Take α) : Socket.Serde α where
  toVec a := if (encode a).length < 2 ^ 64 then .ok (encode a) else .error "out of memory"
  deserialize := take
  short a bs h := by
    split_ifs at h with hlen
    cases h
    exact hlen

theorem boundedSerde_roundTrips {α : Type} {encode : α → List UInt8} {take : Take α}
    (h : ∀ a, (encode a).length < 2 ^ 64 → Takes take (encode a) a) :
    (boundedSerde encode take).RoundTrips := by
  intro a bs hbs
  change (if (encode a).length < 2 ^ 64 then _ else _) = _ at hbs
  split_ifs at hbs with hlen
  cases hbs
  rw [Socket.Serde.fromSlice_eq_some]
  have ha := h a hlen []
  rwa [append_nil] at ha

def commandSerde : Socket.Serde CommandWithArgs := boundedSerde encodeRequest takeRequest

theorem commandSerde_roundTrips : commandSerde.RoundTrips :=
  boundedSerde_roundTrips (fun _ h => takes_request h)

theorem commandSerde_streams : Streams commandSerde.deserialize := takeRequest_streams

/-! ### Responses -/

/-- The encoding of a response that carries no query result. -/
def encodeResponse : Response Empty → List UInt8
  | .ok => encodeString "Ok"
  | .systemMsg msg => head 160 1 ++ (encodeString "SystemMsg" ++ encodeString msg)
  | .systemErr msg => head 160 1 ++ (encodeString "SystemErr" ++ encodeString msg)
  | .queryExecutionError msg =>
    head 160 1 ++ (encodeString "QueryExecutionError" ++ encodeString msg)
  | .shutdown fromClient =>
    head 160 1 ++ (encodeString "Shutdown" ++ head 224 (if fromClient then 21 else 20))
  | .quietOk => encodeString "QuietOk"
  | .quietErr => encodeString "QuietErr"

def takeBool : Take Bool :=
  (takeHead : Take (ℕ × ℕ)) >>= fun r =>
    if r = (7, 21) then pure true else if r = (7, 20) then pure false else fun _ => none

/-- The variants without contents. -/
def unitResponse (name : String) : Take (Response Empty) :=
  if name = "Ok" then pure .ok
  else if name = "QuietOk" then pure .quietOk
  else if name = "QuietErr" then pure .quietErr
  else fun _ => none

/-- The variants with contents. -/
def takeContents (variant : String) : Take (Response Empty) :=
  if variant = "SystemMsg" then Response.systemMsg <$> takeString
  else if variant = "SystemErr" then Response.systemErr <$> takeString
  else if variant = "QueryExecutionError" then Response.queryExecutionError <$> takeString
  else if variant = "Shutdown" then Response.shutdown <$> takeBool
  else fun _ => none

def takeResponse : Take (Response Empty) :=
  (takeHead : Take (ℕ × ℕ)) >>= fun r =>
    if r.1 = 3 then textBody r.2 >>= unitResponse
    else if r = (5, 1) then takeString >>= takeContents
    else fun _ => none

theorem takes_unit {name : String} {r : Response Empty} (hs : (encodeString name).length < 2 ^ 64)
    (hr : unitResponse name = pure r) : Takes takeResponse (encodeString name) r := by
  unfold encodeString at hs
  rw [length_append] at hs
  apply Takes.bind (takes_head (m := 3) (by decide) (by omega))
  rw [if_pos rfl]
  exact (takes_textBody name).bind_pure hr

theorem takes_contents {α : Type} {variant : String} {contents : List UInt8} {a : α}
    {make : α → Response Empty} {take : Take α} (hv : (encodeString variant).length < 2 ^ 64)
    (htake : takeContents variant = make <$> take) (hc : Takes take contents a) :
    Takes takeResponse (head 160 1 ++ (encodeString variant ++ contents)) (make a) := by
  apply Takes.bind (takes_head (m := 5) (by decide) (by decide))
  rw [if_neg (by decide), if_pos rfl]
  apply Takes.bind (takes_string hv)
  rw [htake]
  exact hc.bind_pure (g := fun a => pure (make a)) rfl

theorem takes_bool (b : Bool) : Takes takeBool (head 224 (if b then 21 else 20)) b := by
  cases b with
  | true => exact (takes_head (m := 7) (by decide) (by decide)).bind_pure (if_pos rfl)
  | false =>
    apply (takes_head (m := 7) (by decide) (by decide)).bind_pure
    rw [if_neg (by decide), if_pos (by decide)]

theorem takes_response {r : Response Empty} (hr : (encodeResponse r).length < 2 ^ 64) :
    Takes takeResponse (encodeResponse r) r := by
  cases r with
  | ok => exact takes_unit hr rfl
  | quietOk => exact takes_unit hr rfl
  | quietErr => exact takes_unit hr rfl
  | queryResult q => exact q.elim
  | systemMsg msg =>
    simp only [encodeResponse, length_append] at hr
    exact takes_contents (by omega) rfl (takes_string (by omega))
  | systemErr msg =>
    simp only [encodeResponse, length_append] at hr
    exact takes_contents (by omega) rfl (takes_string (by omega))
  | queryExecutionError msg =>
    simp only [encodeResponse, length_append] at hr
    exact takes_contents (by omega) rfl (takes_string (by omega))
  | shutdown fromClient =>
    simp only [encodeResponse, length_append] at hr
    exact takes_contents (by omega) rfl (takes_bool fromClient)

def responseSerde : Socket.Serde (Response Empty) := boundedSerde encodeResponse takeResponse

theorem responseSerde_roundTrips : responseSerde.RoundTrips :=
  boundedSerde_roundTrips (fun _ h => takes_response h)

end CrustyDB
