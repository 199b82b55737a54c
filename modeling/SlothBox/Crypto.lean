import SlothBox.Library.Base64
import SlothBox.Library.Except
import SlothBox.Library.Utf8
import SlothBox.Library.Utf16

/-! `crypto-core`: sealing of chunks, key derivation and the encodings around them.
The primitives of libsodium and WebCrypto are a parameter; the guards, layouts and
labels in front of them are the package's own. -/

namespace SlothBox
open Library

/-- The codes the receiver's page branches on. -/
inductive DownloadErrorCode where
  | passwordRequired | wrongPassword | shareNotFound | keyInvalid | transport | metadata | decrypt | alreadyUsed
  | cancelled | unknown
  deriving DecidableEq, Repr

/-- What browser code throws. -/
inductive Thrown where
  | error (message : String)
  | uploadError (message : String)
  | downloadError (message : String) (code : DownloadErrorCode)
  deriving DecidableEq, Repr

structure Sodium where
  /-- `crypto_aead_xchacha20poly1305_ietf_encrypt` and `_decrypt`. -/
  aeadEncrypt (plaintext aad nonce key : Bytes) : Bytes
  aeadDecrypt (ciphertext aad nonce key : Bytes) : Option Bytes
  /-- `crypto_generichash` with 32 octets of output, without and with a key. -/
  genericHash (message : Bytes) : Bytes
  keyedHash (message key : Bytes) : Bytes
  /-- `crypto_generichash_init`, `_update` and `_final`. -/
  HashState : Type
  hashInit : HashState
  hashUpdate : HashState → Bytes → HashState
  hashFinal : HashState → Bytes
  /-- `crypto_pwhash` with 32 octets of output; it throws on parameters it cannot serve. -/
  pwhash (password salt : Bytes) (opsLimit memLimit : Nat) : Option Bytes
  /-- `crypto.subtle.digest("SHA-256", …)`. -/
  sha256 : Bytes → Bytes

def keyBytes : Nat := 32
def nonceBytes : Nat := 24
def tagBytes : Nat := 16
def saltBytes : Nat := 16
def aeadKeyBytes : Nat := 32
def maxPasswordBytes : Nat := 4096
def defaultOpsLimit : Nat := 3
def defaultMemLimitBytes : Nat := 64 * 1024 * 1024

/-! ### utils.ts -/

def stringToBytes (s : String) : Bytes := Utf8.encode s.toList

def bytesToString (bytes : Bytes) : String := String.ofList (Utf8.decodeText bytes)

def bytesToBase64Url (bytes : Bytes) : String := String.ofList (Base64.encodeUrl bytes)

def base64UrlToBytes (s : String) : Except Thrown Bytes :=
  (Base64.atob (s.toList.map Base64.ofUrlChar ++ Base64.padding (Utf16.length s))).elim
    (.error (.error "InvalidCharacterError")) .ok

/-! ### symmetric.ts -/

/-- The additional data of a chunk: the share's name behind its length, then the index. -/
def buildChunkAad (shareId : String) (chunkIndex : Nat) : Except Thrown Bytes := do
  let shareIdBytes := stringToBytes shareId
  throwIf (0xffff < shareIdBytes.length) (.error "shareId too long for AAD length prefix")
  return u16be shareIdBytes.length ++ shareIdBytes ++ u32be chunkIndex

section Primitives
variable (sodium : Sodium)

def encryptChunk (plaintext key nonce aad : Bytes) : Except Thrown Bytes := do
  throwIf (key.length ≠ keyBytes) (.error "key must be 32 bytes")
  throwIf (nonce.length ≠ nonceBytes) (.error "nonce must be 24 bytes")
  return sodium.aeadEncrypt plaintext aad nonce key

def decryptChunk (ciphertext key nonce aad : Bytes) : Except Thrown Bytes := do
  throwIf (key.length ≠ keyBytes) (.error "key must be 32 bytes")
  throwIf (nonce.length ≠ nonceBytes) (.error "nonce must be 24 bytes")
  throwIf (ciphertext.length < tagBytes) (.error "ciphertext too short — missing AEAD tag")
  (sodium.aeadDecrypt ciphertext aad nonce key).elim
    (.error (.error "ciphertext cannot be decrypted using that key")) .ok

def hashBytes (input : Bytes) : Bytes := sodium.genericHash input

def hashChunks (chunks : List Bytes) : Bytes := sodium.hashFinal (chunks.foldl sodium.hashUpdate sodium.hashInit)

def chunkTokenLabel : Bytes := stringToBytes "slothbox-chunk-token-v1"

def deriveChunkToken (fragmentKey : Bytes) (shortId : String) (chunkIndex : Nat) : Except Thrown Bytes := do
  throwIf (fragmentKey.length ≠ keyBytes) (.error "fragmentKey must be 32 bytes")
  let aadShape ← buildChunkAad shortId chunkIndex
  return sodium.sha256 (chunkTokenLabel ++ [0] ++ fragmentKey ++ aadShape)

/-! ### derivation.ts -/

def aeadKdfLabel : Bytes := stringToBytes "slothbox-aead-kdf-v1"

def deriveKeyFromPassword (password : String) (salt : Bytes) (opsLimit : Nat := defaultOpsLimit)
    (memLimit : Nat := defaultMemLimitBytes) : Except Thrown Bytes := do
  throwIf (salt.length ≠ saltBytes) (.error "salt must be 16 bytes")
  throwIf (Utf16.length password = 0) (.error "password must not be empty")
  throwIf (maxPasswordBytes < Utf16.length password) (.error "password too long (max 4096 bytes)")
  throwIf (maxPasswordBytes < (stringToBytes password).length) (.error "password too long (max 4096 bytes)")
  (sodium.pwhash (stringToBytes password) salt opsLimit memLimit).elim (.error (.error "invalid usage")) .ok

/-- Without a password the key of the link is the key of the ciphertexts. -/
def deriveAeadKey (fragmentKey : Bytes) (passwordKey : Option Bytes) : Except Thrown Bytes := do
  throwIf (fragmentKey.length ≠ aeadKeyBytes) (.error "fragmentKey must be 32 bytes")
  match passwordKey with
  | none => return fragmentKey
  | some passwordKey => do
    throwIf (passwordKey.length ≠ aeadKeyBytes) (.error "passwordKey must be 32 bytes")
    return sodium.keyedHash (aeadKdfLabel ++ [0] ++ passwordKey) fragmentKey

end Primitives

end SlothBox
