import ThunderboltDb.Lib.StateResult
import ThunderboltDb.Server.Scram

/-!
# SCRAM authentication of a connection

`authenticate_scram_sha256` as a program over a connection: the bytes that are still to be read, and the
backend messages sent so far. The parser of the protocol crate and the random nonce are arbitrary.

* `authentication_ignores_authUser` — for a client whose proof does not verify, the configured user changes
  nothing.
-/

namespace ThunderboltDb.Server

open Lib

/-! ### Connections -/

inductive FrontendMessage where
  | saslInitialResponse (mechanism : Bytes) (initialResponse : Option Bytes)
  | saslResponse (message : Bytes)
  /-- Any message that is not part of a SASL exchange. -/
  | other

inductive ErrorKind where
  | invalidData
  | permissionDenied
  | unexpectedEof

structure IoError where
  kind : ErrorKind
  message : String

inductive BackendMessage where
  | authenticationSasl (mechanisms : List String)
  | authenticationSaslContinue (data : Bytes)
  | authenticationSaslFinal (data : Bytes)
  | authenticationOk
  | errorResponse (code message : String)

structure Connection where
  input : Bytes
  sent : List BackendMessage

abbrev Session := EStateM IoError Connection

/-- What a server runs with. -/
structure Host where
  crypto : Crypto
  parseFrontendMessage : Bytes → Except String FrontendMessage
  nonceBytes : Vector UInt8 18

def Host.serverNonce (host : Host) : Bytes := host.crypto.base64Encode host.nonceBytes.toList

def send (message : BackendMessage) : Session PUnit :=
  modify fun c => { c with sent := c.sent ++ [message] }

def maxAuthFrameBytes : ℕ := 64 * 1024

/-- The next frame; `none` at the end of the stream. A stream that ends inside the frame is a failed
`read_exact`. -/
def readAuthFrame : Session (Option Bytes) := fun c =>
  -- the big-endian length behind the tag, which counts itself
  let declared := leValue ((c.input.drop 1).take 4).reverse
  if c.input = [] then .ok none c
  else if c.input.length < 5 then
    .error ⟨.unexpectedEof, "failed to fill whole buffer"⟩ { c with input := [] }
  -- `validate_declared_frame_len`
  else if declared < 4 then
    .error ⟨.invalidData, s!"invalid authentication frame length: {declared}"⟩
      { c with input := c.input.drop 5 }
  else if maxAuthFrameBytes < declared then
    .error ⟨.invalidData, s!"authentication frame length {declared} exceeds limit {maxAuthFrameBytes}"⟩
      { c with input := c.input.drop 5 }
  else if c.input.length < 1 + declared then
    .error ⟨.unexpectedEof, "failed to fill whole buffer"⟩ { c with input := [] }
  else .ok (some (c.input.take (1 + declared))) { c with input := c.input.drop (1 + declared) }

/-! ### Failures -/

variable {α : Type}

def writeFailure (code message : String) (kind : ErrorKind) : Session α := do
  send (.errorResponse code message)
  throw ⟨kind, message⟩

def protocolFailure (message : String) : Session α :=
  writeFailure "08P01" message .invalidData

def authenticationFailure : Session α :=
  writeFailure "28P01" "password authentication failed" .permissionDenied

/-- A step of the exchange, with `write_scram_failure` where it fails. -/
def orScramFailure : Except ScramFailure α → Session α
  | .ok a => pure a
  | .error .authentication => authenticationFailure
  | .error (.protocol message) => protocolFailure message

/-! ### Authentication -/

section

variable (host : Host)

def readSasl : Session FrontendMessage := do
  match ← readAuthFrame with
  | none => throw ⟨.unexpectedEof, "connection closed during SCRAM authentication"⟩
  | some frame =>
    match host.parseFrontendMessage frame with
    | .ok message => pure message
    | .error text => protocolFailure text

def readInitial : Session Bytes := do
  match ← readSasl host with
  | .saslInitialResponse mechanism initialResponse =>
    if mechanism ≠ ascii "SCRAM-SHA-256" then protocolFailure "unsupported SASL mechanism"
    else match initialResponse with
      | some response => pure response
      | none => protocolFailure "SCRAM-SHA-256 requires an initial response"
  | _ => protocolFailure "expected SASL initial response"

def readFinal : Session Bytes := do
  match ← readSasl host with
  | .saslResponse message => pure message
  | _ => protocolFailure "expected SASL final response"

/-- The exchange up to the verified proof. -/
def serverSignature (verifier : ScramVerifier) (startupUser : Bytes) : Session Key := do
  send (.authenticationSasl ["SCRAM-SHA-256"])
  let initial ← readInitial host
  let exchange ← orScramFailure
    (ScramExchange.start host.crypto initial startupUser host.serverNonce verifier)
  send (.authenticationSaslContinue exchange.serverFirst)
  let final ← readFinal host
  orScramFailure (exchange.finish host.crypto final verifier)

/-- The values of the startup parameter `user`. -/
def startupUsers (params : List (Bytes × Bytes)) : List Bytes :=
  params.filterMap fun p => if p.1 = ascii "user" then some p.2 else none

def authenticateScramSha256 (authUser : Bytes) (verifier : ScramVerifier)
    (params : List (Bytes × Bytes)) : Session PUnit := do
  let startupUser := (startupUsers params).head?.getD []
  let signature ← serverSignature host verifier startupUser
  -- a wrong identity goes through the same exchange and is refused only here
  if ¬ (startupUser = authUser ∧ (startupUsers params).tail = []) then authenticationFailure
  else do
    send (.authenticationSaslFinal (ascii "v=" ++ host.crypto.base64Encode signature.toList))
    send .authenticationOk

/-! ### Two servers with different users -/

/-- **What a client presents**: the two messages of the exchange that the server reads from these bytes.
What was sent before plays no part in reading. -/
def Presents (input clientFirst clientFinal : Bytes) : Prop :=
  ∃ (sent sent' : List BackendMessage) (c c' : Connection),
    readInitial host ⟨input, sent⟩ = .ok clientFirst c ∧
    readFinal host ⟨c.input, sent'⟩ = .ok clientFinal c'

end

variable {host : Host} {verifier : ScramVerifier} {c c' : Connection}

theorem orScramFailure_ok {x : Except ScramFailure α} {a : α}
    (h : orScramFailure x c = .ok a c') : x = .ok a ∧ c' = c := by
  unfold orScramFailure at h
  split at h
  · cases h
    exact ⟨rfl, rfl⟩
  · cases h
  · cases h

/-- An exchange that reaches its end read two messages whose proof verifies. -/
theorem serverSignature_ok {startupUser : Bytes} {signature : Key}
    (h : serverSignature host verifier startupUser c = .ok signature c') :
    ∃ clientFirst clientFinal, Presents host c.input clientFirst clientFinal ∧
      ProofVerifies host.crypto verifier host.serverNonce clientFirst clientFinal := by
  obtain ⟨_, c₁, hsend, h₁⟩ := bind_eq_ok.mp h
  obtain ⟨clientFirst, c₂, hinitial, h₂⟩ := bind_eq_ok.mp h₁
  obtain ⟨exchange, c₃, hfirst, h₃⟩ := bind_eq_ok.mp h₂
  obtain ⟨_, c₄, hsend', h₄⟩ := bind_eq_ok.mp h₃
  obtain ⟨clientFinal, c₅, hfinal, hlast⟩ := bind_eq_ok.mp h₄
  obtain ⟨hstart, rfl⟩ := orScramFailure_ok hfirst
  obtain ⟨hfinish, rfl⟩ := orScramFailure_ok hlast
  cases hsend
  cases hsend'
  exact ⟨clientFirst, clientFinal, ⟨_, _, _, _, hinitial, hfinal⟩, proofVerifies_of_finish hstart hfinish⟩

/-- **The configured user is not revealed.**  Two servers with the same verifier and the same nonce do
exactly the same, in the same order, on every client whose proof does not verify, whatever user it
claimed. -/
theorem authentication_ignores_authUser (authUser authUser' : Bytes)
    (params : List (Bytes × Bytes)) (c : Connection)
    (hproof : ∀ clientFirst clientFinal, Presents host c.input clientFirst clientFinal →
      ¬ ProofVerifies host.crypto verifier host.serverNonce clientFirst clientFinal) :
    authenticateScramSha256 host authUser verifier params c =
      authenticateScramSha256 host authUser' verifier params c := by
  cases hrun : serverSignature host verifier ((startupUsers params).head?.getD []) c with
  | ok signature c' =>
    obtain ⟨clientFirst, clientFinal, hpresents, hverifies⟩ := serverSignature_ok hrun
    exact absurd hverifies (hproof clientFirst clientFinal hpresents)
  | error e c' => exact (bind_of_error hrun).trans (bind_of_error hrun).symm

/-- The HMAC of the transcript below under the stored key, and its SHA-256. -/
def transcriptHmac : Key := #v[119, 213, 110, 0, 78, 51, 160, 246, 93, 61, 47, 200, 251, 215, 75, 137, 32, 104,
  106, 223, 210, 188, 74, 45, 167, 20, 20, 83, 22, 244, 153, 193]

def recoveredHash : Key := #v[175, 23, 140, 76, 168, 129, 215, 79, 34, 98, 38, 129, 6, 249, 5, 114, 224, 84, 78,
  186, 175, 179, 105, 72, 162, 240, 118, 173, 46, 152, 118, 189]

/-- The functions of a server at the inputs of one exchange. -/
def lockedHost : Host where
  crypto.sha256 _ := recoveredHash
  crypto.hmacSha256 _ _ := transcriptHmac
  crypto.base64Encode bytes := ascii (if bytes = [1] then "AQ==" else "YWFhYWFhYWFhYWFhYWFhYWFh")
  crypto.base64Decode text := some (if text = ascii "biws" then ascii "n,," else List.replicate 32 0)
  parseFrontendMessage frame :=
    -- behind the tag and the length, an initial response names its mechanism and counts its bytes
    if ascii "SCRAM-SHA-256" ++ [0] <+: frame.drop 5 then
      .ok (.saslInitialResponse (ascii "SCRAM-SHA-256") (some (frame.drop 23)))
    else .ok (.saslResponse (frame.drop 5))
  nonceBytes := Vector.replicate 18 0x61

def lockedVerifier : ScramVerifier := ⟨4096, [1], Vector.replicate 32 1, Vector.replicate 32 2⟩

/-- A client sends its nonce and a proof of 32 zero bytes. -/
def wrongProof : Bytes :=
  ascii "p" ++ [0, 0, 0, 33] ++ ascii "SCRAM-SHA-256" ++ [0, 0, 0, 0, 11] ++ ascii "n,,n=,r=abc" ++
    ascii "p" ++ [0, 0, 0, 87] ++ ascii "c=biws,r=abcYWFhYWFhYWFhYWFhYWFhYWFh" ++
      ascii ",p=AAAAAAAAAAAAAAAAAAAAAAAAAAAAAAAAAAAAAAAAAAA="

set_option maxRecDepth 4000 in
/-- The wrong proof is refused as such, for each of two users. -/
theorem authentication_ignores_authUser_locked :
    (∃ c, authenticateScramSha256 lockedHost (ascii "alice") lockedVerifier [(ascii "user", ascii "alice")]
      ⟨wrongProof, []⟩ = .error ⟨.permissionDenied, "password authentication failed"⟩ c) ∧
    authenticateScramSha256 lockedHost (ascii "alice") lockedVerifier [(ascii "user", ascii "alice")]
      ⟨wrongProof, []⟩ =
    authenticateScramSha256 lockedHost (ascii "bob") lockedVerifier [(ascii "user", ascii "alice")]
      ⟨wrongProof, []⟩ := by
  refine ⟨⟨_, rfl⟩, authentication_ignores_authUser _ _ _ _ fun clientFirst clientFinal _ hproof => ?_⟩
  obtain ⟨_, _, _, _, _, _, _, _, hhash⟩ := hproof
  have hkeys : recoveredHash = Vector.replicate 32 1 := hhash
  exact absurd hkeys (by decide)

end ThunderboltDb.Server
