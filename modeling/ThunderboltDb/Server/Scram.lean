import ThunderboltDb.Lib.ByteCodec
import ThunderboltDb.Lib.TextFile

/-!
# The SCRAM-SHA-256 exchange

`ScramExchange::start` and `ScramExchange::finish` with the attribute lists, names and nonces they parse.
A Rust `str` is the list of its UTF-8 bytes here: every delimiter is ASCII, so a character search is a
byte search. SHA-256, HMAC and the base64 crate are arbitrary functions.
-/

namespace ThunderboltDb.Server

open Lib

def ascii (text : String) : Bytes := text.toList.map fun c => UInt8.ofNat c.toNat

def comma : UInt8 := 0x2c

def equals : UInt8 := 0x3d

def scramMaxMessageBytes : ℕ := 4096

def scramMaxNonceBytes : ℕ := 1024

/-- `[u8; SCRAM_KEY_BYTES]`. -/
abbrev Key := Vector UInt8 32

structure Crypto where
  sha256 : Key → Key
  hmacSha256 : Key → Bytes → Key
  base64Encode : Bytes → Bytes
  base64Decode : Bytes → Option Bytes

structure ScramVerifier where
  iterations : ℕ
  salt : Bytes
  storedKey : Key
  serverKey : Key

inductive ScramFailure where
  | authentication
  | protocol (message : String)
  deriving DecidableEq, Repr

/-! ### Attribute lists -/

/-- An attribute: its letter and its value. -/
abbrev Attribute := UInt8 × Bytes

def isAsciiAlphabetic (b : UInt8) : Bool :=
  (0x41 ≤ b && b ≤ 0x5a) || (0x61 ≤ b && b ≤ 0x7a)

/-- The loop of `parse_scram_attributes` over the parts between commas. -/
def parseParts (attributes : List Attribute) :
    List Bytes → Except ScramFailure (List Attribute)
  | [] => .ok attributes
  | (name :: sign :: value) :: parts =>
    if sign ≠ equals ∨ !isAsciiAlphabetic name then .error (.protocol "malformed SCRAM attribute")
    else if name = 0x6d then .error (.protocol "unsupported mandatory SCRAM extension")
    else if attributes.any fun a => a.1 == name then .error (.protocol "duplicate SCRAM attribute")
    else parseParts (attributes ++ [(name, value)]) parts
  | _ :: _ => .error (.protocol "malformed SCRAM attribute")

def parseScramAttributes (message : Bytes) : Except ScramFailure (List Attribute) := do
  refuse (message = []) (.protocol "SCRAM attribute list is empty")
  parseParts [] (message.splitOn comma)

/-! ### Names and nonces -/

/-- The byte loop of `decode_scram_name`. -/
def decodeNameBytes : Bytes → Except ScramFailure Bytes
  | [] => .ok []
  | byte :: rest =>
    if byte ≠ equals then (byte :: ·) <$> decodeNameBytes rest
    else match rest with
      | x :: y :: rest =>
        if [x, y] = ascii "2C" then (comma :: ·) <$> decodeNameBytes rest
        else if [x, y] = ascii "3D" then (equals :: ·) <$> decodeNameBytes rest
        else .error (.protocol "invalid SCRAM username escape")
      | _ => .error (.protocol "invalid SCRAM username escape")

def decodeScramName (encoded : Bytes) : Except ScramFailure Bytes := do
  let decoded ← decodeNameBytes encoded
  refuse (utf8Text decoded = none) (.protocol "invalid SCRAM username UTF-8")
  return decoded

def validateScramNonce (nonce : Bytes) : Except ScramFailure Unit :=
  refuse (nonce = [] ∨ scramMaxNonceBytes < nonce.length ∨
    nonce.any fun b => !(0x21 ≤ b && b ≤ 0x7e) || b == comma) (.protocol "invalid SCRAM client nonce")

/-! ### The exchange -/

structure ScramExchange where
  gs2Header : Bytes
  clientFirstBare : Bytes
  combinedNonce : Bytes
  serverFirst : Bytes

/-- The text before and behind the first `c`. -/
def splitFirst (c : UInt8) : Bytes → Option (Bytes × Bytes)
  | [] => none
  | b :: bytes => if b = c then some ([], bytes) else (splitFirst c bytes).map fun p => (b :: p.1, p.2)

/-- The GS2 header, up to its second comma, and the rest of the client-first message. -/
def splitGs2 (clientFirst : Bytes) : Except ScramFailure (Bytes × Bytes) := do
  let some (channelBinding, rest) := splitFirst comma clientFirst
    | .error (.protocol "malformed SCRAM GS2 header")
  let some (authorization, bare) := splitFirst comma rest
    | .error (.protocol "malformed SCRAM GS2 header")
  refuse (channelBinding ≠ ascii "n" ∧ channelBinding ≠ ascii "y")
    (.protocol "unsupported SCRAM channel-binding flag")
  refuse (authorization ≠ []) (.protocol "SCRAM authorization identity is not supported")
  return (channelBinding ++ [comma, comma], bare)

def firstAttributes : List Attribute → Except ScramFailure (Bytes × Bytes)
  | (n, name) :: (r, nonce) :: _ =>
    if n = 0x6e ∧ r = 0x72 then .ok (name, nonce)
    else .error (.protocol "SCRAM client-first requires ordered n and r attributes before extensions")
  | _ => .error (.protocol "SCRAM client-first requires ordered n and r attributes before extensions")

def finalAttributes : List Attribute → Except ScramFailure (Bytes × Bytes × Bytes)
  | (c, binding) :: (r, nonce) :: next :: more =>
    let last := (next :: more).getLast (List.cons_ne_nil _ _)
    if c = 0x63 ∧ r = 0x72 ∧ last.1 = 0x70 then .ok (binding, nonce, last.2)
    else .error (.protocol "SCRAM client-final requires ordered c, r, and terminal p attributes")
  | _ => .error (.protocol "SCRAM client-final requires ordered c, r, and terminal p attributes")

variable (crypto : Crypto)

def serverFirstMessage (combinedNonce : Bytes) (verifier : ScramVerifier) : Bytes :=
  ascii "r=" ++ combinedNonce ++ ascii ",s=" ++ crypto.base64Encode verifier.salt ++ ascii ",i=" ++
    utf8Bytes (decimalText verifier.iterations)

def ScramExchange.start (clientFirst authUser serverNonce : Bytes) (verifier : ScramVerifier) :
    Except ScramFailure ScramExchange := do
  refuse (scramMaxMessageBytes < clientFirst.length)
    (.protocol "SCRAM client-first message is too large")
  refuse (utf8Text clientFirst = none) (.protocol "invalid SCRAM client-first UTF-8")
  let (gs2Header, clientFirstBare) ← splitGs2 clientFirst
  let attributes ← parseScramAttributes clientFirstBare
  let (encodedUser, clientNonce) ← firstAttributes attributes
  let user ← decodeScramName encodedUser
  refuse (user ≠ [] ∧ user ≠ authUser) .authentication
  validateScramNonce clientNonce
  refuse (serverNonce = [] ∨ comma ∈ serverNonce) (.protocol "invalid SCRAM server nonce")
  let combinedNonce := clientNonce ++ serverNonce
  return { gs2Header, clientFirstBare, combinedNonce
           serverFirst := serverFirstMessage crypto combinedNonce verifier }

/-- The transcript that the proof signs. -/
def authMessage (clientFirstBare serverFirst withoutProof : Bytes) : Bytes :=
  clientFirstBare ++ ascii "," ++ serverFirst ++ ascii "," ++ withoutProof

def Key.xor (a b : Key) : Key := Vector.zipWith (fun x y => x ^^^ y) a b

def stripSuffix (text suffix : Bytes) : Option Bytes :=
  if suffix <:+ text then some (text.take (text.length - suffix.length)) else none

/-- `ScramExchange::finish`: the server signature of a client-final message whose proof holds. -/
def ScramExchange.finish (self : ScramExchange) (clientFinal : Bytes)
    (verifier : ScramVerifier) : Except ScramFailure Key := do
  refuse (scramMaxMessageBytes < clientFinal.length)
    (.protocol "SCRAM client-final message is too large")
  refuse (utf8Text clientFinal = none) (.protocol "invalid SCRAM client-final UTF-8")
  let attributes ← parseScramAttributes clientFinal
  let (binding, nonce, proofAttribute) ← finalAttributes attributes
  let some channelBinding := crypto.base64Decode binding
    | .error (.protocol "invalid SCRAM channel-binding base64")
  refuse (channelBinding ≠ self.gs2Header)
    (.protocol "SCRAM channel binding does not match the GS2 header")
  refuse (nonce ≠ self.combinedNonce) (.protocol "SCRAM nonce does not match")
  let some proof := crypto.base64Decode proofAttribute | .error (.protocol "invalid SCRAM proof base64")
  if h : proof.toArray.size = 32 then
    let some withoutProof := stripSuffix clientFinal (ascii ",p=" ++ proofAttribute)
      | .error (.protocol "malformed SCRAM proof attribute")
    let message := authMessage self.clientFirstBare self.serverFirst withoutProof
    let clientSignature := crypto.hmacSha256 verifier.storedKey message
    let recoveredClientKey := Key.xor ⟨proof.toArray, h⟩ clientSignature
    refuse (crypto.sha256 recoveredClientKey ≠ verifier.storedKey) .authentication
    return crypto.hmacSha256 verifier.serverKey message
  else .error .authentication

/-! ### Accepted proofs -/

/-- **The proof verifies.**  The first message starts an exchange, and the final one ends in a proof that,
xor-ed with the HMAC of the whole transcript under the stored key, hashes to the stored key. -/
def ProofVerifies (verifier : ScramVerifier) (serverNonce clientFirst clientFinal : Bytes) : Prop :=
  ∃ (user : Bytes) (exchange : ScramExchange) (withoutProof proofText : Bytes) (proof : Key),
    ScramExchange.start crypto clientFirst user serverNonce verifier = .ok exchange ∧
    clientFinal = withoutProof ++ (ascii ",p=" ++ proofText) ∧
    crypto.base64Decode proofText = some proof.toList ∧
    crypto.sha256 (Key.xor proof (crypto.hmacSha256 verifier.storedKey
      (authMessage exchange.clientFirstBare exchange.serverFirst withoutProof))) = verifier.storedKey

theorem stripSuffix_eq_some {text suffix rest : Bytes} (h : stripSuffix text suffix = some rest) :
    text = rest ++ suffix := by
  rw [stripSuffix] at h
  split_ifs at h with hsuffix
  obtain ⟨before, rfl⟩ := hsuffix
  rw [← Option.some.inj h, List.length_append, Nat.add_sub_cancel_right, List.take_left]

variable {crypto} {clientFirst user serverNonce clientFinal : Bytes} {verifier : ScramVerifier}
  {exchange : ScramExchange} {signature : Key}

/-- Where both steps of the exchange succeed, the proof verifies. -/
theorem proofVerifies_of_finish
    (hstart : ScramExchange.start crypto clientFirst user serverNonce verifier = .ok exchange)
    (hfinish : exchange.finish crypto clientFinal verifier = .ok signature) :
    ProofVerifies crypto verifier serverNonce clientFirst clientFinal := by
  simp only [ScramExchange.finish, bind_ok, refuse_eq_ok, exists_const, Prod.exists] at hfinish
  obtain ⟨-, -, attributes, -, binding, nonce, proofText, -, h⟩ := hfinish
  split at h
  · simp only [except_seq_ok, refuse_eq_ok] at h
    obtain ⟨-, -, h⟩ := h
    split at h
    · rename_i proof hproof
      split_ifs at h with hsize
      split at h
      · rename_i withoutProof hstrip
        simp only [except_seq_ok, refuse_eq_ok, not_not] at h
        exact ⟨user, exchange, withoutProof, proofText, ⟨proof.toArray, hsize⟩, hstart,
          stripSuffix_eq_some hstrip, by simpa using hproof, h.1⟩
      · cases h
    · cases h
  · cases h

end ThunderboltDb.Server
