import Mathlib.Data.List.DropRight
import SlothBox.Proofs.EndToEnd

/-! The key of a password-protected share, for every setting of its cost. The sender
stretches with the bytes it was given and publishes whole KiB, rounded to the nearest;
the recipient can only stretch with those. -/

namespace SlothBox.Proofs
open Library

variable {sodium : Sodium} {config : WebConfig} {random : Randomness} {file : File} {options : UploadOptions}
  {expiresAt : String} {encryptedMeta : Bytes}

/-- The key under which `uploadFile` seals. -/
def uploadAeadKey (sodium : Sodium) (random : Randomness) (options : UploadOptions) : Except Thrown Bytes := do
  let passwordKey ← uploadPasswordKey sodium random options
  deriveAeadKey sodium random.fragmentKey passwordKey

theorem prepareUpload_key {description : Sealed}
    (prepared : prepareUpload sodium config random file options = .ok (description, encryptedMeta)) :
    uploadAeadKey sodium random options = .ok description.key := by
  obtain ⟨-, ⟨passwordKey, password, derived⟩, -⟩ := prepareUpload_ok prepared
  exact bind_ok.mpr ⟨passwordKey, password, derived⟩

/-- Argon2id counts its memory in whole KiB. -/
def WholeKib (sodium : Sodium) : Prop :=
  ∀ password salt opsLimit first second, first / 1024 = second / 1024 →
    sodium.pwhash password salt opsLimit first = sodium.pwhash password salt opsLimit second

def opsLimitOf (options : UploadOptions) : Nat := options.passwordKdfOpsLimit.getD defaultOpsLimit

def memLimitOf (options : UploadOptions) : Nat :=
  options.passwordKdfMemLimitBytes.getD defaultMemLimitBytes

/-- The gateway's bounds on what is published of the cost. -/
def CostBounded (options : UploadOptions) : Prop :=
  1 ≤ opsLimitOf options ∧ opsLimitOf options ≤ 10 ∧
    8192 ≤ memLimitKib (memLimitOf options) ∧ memLimitKib (memLimitOf options) ≤ 1048576

instance (options : UploadOptions) : Decidable (CostBounded options) := inferInstanceAs (Decidable (_ ∧ _))

/-- A password that `deriveKeyFromPassword` takes. -/
def Usable (password : String) : Prop := 0 < Utf16.length password ∧ (stringToBytes password).length ≤ maxPasswordBytes

instance (password : String) : Decidable (Usable password) := inferInstanceAs (Decidable (_ ∧ _))

theorem deriveKeyFromPassword_usable {password : String} (usable : Usable password) {salt : Bytes}
    (width : salt.length = saltBytes) (opsLimit memLimit : Nat) :
    deriveKeyFromPassword sodium password salt opsLimit memLimit =
      (sodium.pwhash (stringToBytes password) salt opsLimit memLimit).elim (.error (.error "invalid usage")) .ok := by
  have units := (utf16_length_bounds password).1
  have filled : Utf16.length password ≠ 0 := Nat.pos_iff_ne_zero.mp usable.1
  have short : ¬maxPasswordBytes < Utf16.length password := Nat.not_lt.mpr (Nat.le_trans units usable.2)
  rw [deriveKeyFromPassword, throwIf, throwIf, throwIf, throwIf, if_neg (not_not.mpr width), if_neg filled, if_neg short,
    if_neg (Nat.not_lt.mpr usable.2)]
  rfl

theorem uploadAeadKey_password {password : String} (usable : Usable password) (given : options.password = some password) :
    uploadAeadKey sodium random options =
      (sodium.pwhash (stringToBytes password) random.passwordSalt (opsLimitOf options)
        (memLimitOf options)).elim (.error (.error "invalid usage"))
        fun passwordKey => deriveAeadKey sodium random.fragmentKey (some passwordKey) := by
  have protect : options.hasPassword = true := by simpa [UploadOptions.hasPassword, given] using usable.1
  have stretched := @deriveKeyFromPassword_usable sodium password usable _ random.passwordSalt.property
    (opsLimitOf options) (memLimitOf options)
  rw [uploadAeadKey, uploadPasswordKey, if_pos protect, given]
  unfold opsLimitOf memLimitOf at stretched ⊢
  rw [Option.getD_some, stretched]
  cases sodium.pwhash (stringToBytes password) random.passwordSalt _ _ <;> rfl

theorem downloadAeadKey_password {password : String} (usable : Usable password) (given : options.password = some password) :
    downloadAeadKey sodium random.fragmentKey
        (createRequest sodium config random file options expiresAt encryptedMeta).descriptor ⟨options.password, fun _ => false⟩ =
      (sodium.pwhash (stringToBytes password) random.passwordSalt (opsLimitOf options)
        (memLimitKib (memLimitOf options) * 1024)).elim (.error (.error "invalid usage"))
        fun passwordKey => deriveAeadKey sodium random.fragmentKey (some passwordKey) := by
  have protect : options.hasPassword = true := by simpa [UploadOptions.hasPassword, given] using usable.1
  have facet : (createRequest sodium config random file options expiresAt encryptedMeta).facet =
      .enabled (bytesToBase64Url random.passwordSalt) (opsLimitOf options)
        (memLimitKib (memLimitOf options)) := by
    unfold CreateShareRequest.facet createRequest
    rw [protect]
    rfl
  have stretched := @deriveKeyFromPassword_usable sodium password usable _ random.passwordSalt.property
    (opsLimitOf options) (memLimitKib (memLimitOf options) * 1024)
  have filled : Utf16.length password ≠ 0 := Nat.pos_iff_ne_zero.mp usable.1
  rw [downloadAeadKey, CreateShareRequest.descriptor, facet, given]
  dsimp only
  rw [Option.getD_some, throwIf, if_neg filled, base64_roundtrip]
  change (deriveKeyFromPassword sodium password random.passwordSalt _ _ >>= _) = _
  rw [stretched]
  cases sodium.pwhash (stringToBytes password) random.passwordSalt _ _ <;> rfl

/-- Whatever key the sender seals with, the recipient arrives at it from what was
published, if Argon2id counts in whole KiB. -/
def SameKey (random : Randomness) (options : UploadOptions) : Prop :=
  ∀ sodium, WholeKib sodium → ∀ config file expiresAt encryptedMeta key, uploadAeadKey sodium random options = .ok key →
    downloadAeadKey sodium random.fragmentKey
      (createRequest sodium config random file options expiresAt encryptedMeta).descriptor ⟨options.password, fun _ => false⟩ =
        .ok key

/-- Rounding gives the same number of whole KiB for the lower half of each. -/
theorem memLimitKib_eq_div {bytes : Nat} : memLimitKib bytes = bytes / 1024 ↔ bytes % 1024 < 512 := by
  unfold memLimitKib
  omega

theorem memLimitKib_eq_succ {bytes : Nat} (upper : ¬bytes % 1024 < 512) : memLimitKib bytes = bytes / 1024 + 1 := by
  unfold memLimitKib
  omega

/-- What Argon2id and the keyed hash keep apart: another number of KiB stretches a
password to another key, and another password key gives another key of the ciphertexts. -/
structure SeparatesCosts (sodium : Sodium) (password salt : Bytes) (opsLimit : Nat) (fragmentKey : Bytes) : Prop where
  costs : ∀ first second passwordKey, sodium.pwhash password salt opsLimit first = some passwordKey →
    sodium.pwhash password salt opsLimit second = some passwordKey → first / 1024 = second / 1024
  keys : ∀ first second passwordKey other, sodium.pwhash password salt opsLimit first = some passwordKey →
    sodium.pwhash password salt opsLimit second = some other →
    sodium.keyedHash (aeadKdfLabel ++ [0] ++ passwordKey) fragmentKey =
      sodium.keyedHash (aeadKdfLabel ++ [0] ++ other) fragmentKey → passwordKey = other

theorem stretched_ok {fragmentKey key : Bytes} {stretched : Option Bytes}
    (derived : stretched.elim (.error (.error "invalid usage"))
      (fun passwordKey => deriveAeadKey sodium fragmentKey (some passwordKey)) = .ok key) :
    ∃ passwordKey, stretched = some passwordKey ∧
      sodium.keyedHash (aeadKdfLabel ++ [0] ++ passwordKey) fragmentKey = key := by
  cases stretched with
  | none => cases derived
  | some passwordKey =>
    simp only [Option.elim_some, deriveAeadKey, bind_ok, throwIf_ok, exists_const] at derived
    obtain ⟨-, -, same⟩ := derived
    exact ⟨passwordKey, rfl, Except.ok.inj same⟩

/-- In the upper half of a KiB the two sides stretch differently. -/
theorem otherKey {password : String} (usable : Usable password) (given : options.password = some password)
    (upper : ¬memLimitOf options % 1024 < 512)
    (separates : SeparatesCosts sodium (stringToBytes password) random.passwordSalt (opsLimitOf options) random.fragmentKey)
    {key : Bytes} (sender : uploadAeadKey sodium random options = .ok key) :
    downloadAeadKey sodium random.fragmentKey
      (createRequest sodium config random file options expiresAt encryptedMeta).descriptor ⟨options.password, fun _ => false⟩ ≠
        .ok key := by
  intro recipient
  rw [uploadAeadKey_password usable given] at sender
  rw [downloadAeadKey_password usable given, memLimitKib_eq_succ upper] at recipient
  obtain ⟨passwordKey, stretched, sealing⟩ := stretched_ok sender
  obtain ⟨other, restretched, opening⟩ := stretched_ok recipient
  obtain rfl := separates.keys _ _ _ _ stretched restretched (sealing.trans opening.symm)
  have costs := separates.costs _ _ _ stretched restretched
  rw [Nat.mul_div_cancel _ (by decide)] at costs
  omega

/-- A library that serves two neighbouring costs, and shows which it was asked for. -/
def twoCostSodium (kib : Nat) : Sodium :=
  { sampleSodium with
    pwhash := fun _ _ _ memLimit =>
      if memLimit / 1024 = kib then some (List.replicate 32 0)
      else if memLimit / 1024 = kib + 1 then some (List.replicate 32 1)
      else none
    keyedHash := fun message _ => message.rtake 32 }

theorem twoCostSodium_wholeKib (kib : Nat) : WholeKib (twoCostSodium kib) := by
  intro password salt opsLimit first second same
  simp only [twoCostSodium, same]

theorem twoCostSodium_some {kib opsLimit memLimit : Nat} {password salt passwordKey : Bytes}
    (stretched : (twoCostSodium kib).pwhash password salt opsLimit memLimit = some passwordKey) :
    memLimit / 1024 = kib ∧ passwordKey = List.replicate 32 0 ∨
      memLimit / 1024 = kib + 1 ∧ passwordKey = List.replicate 32 1 := by
  simp only [twoCostSodium] at stretched
  split at stretched
  next first => exact .inl ⟨first, (Option.some.inj stretched).symm⟩
  next =>
    split at stretched
    next second => exact .inr ⟨second, (Option.some.inj stretched).symm⟩
    next => cases stretched

theorem twoCostSodium_width {kib opsLimit memLimit : Nat} {password salt passwordKey : Bytes}
    (stretched : (twoCostSodium kib).pwhash password salt opsLimit memLimit = some passwordKey) :
    passwordKey.length = 32 := by
  rcases twoCostSodium_some stretched with ⟨-, rfl⟩ | ⟨-, rfl⟩ <;> rfl

theorem keyedHash_twoCost (kib : Nat) (fragmentKey : Bytes) {passwordKey : Bytes} (width : passwordKey.length = 32) :
    (twoCostSodium kib).keyedHash (aeadKdfLabel ++ [0] ++ passwordKey) fragmentKey = passwordKey := by
  change List.rtake (aeadKdfLabel ++ [0] ++ passwordKey) 32 = _
  rw [List.rtake, List.length_append, width, Nat.add_sub_cancel, List.drop_left]

theorem twoCostSodium_separates (kib : Nat) (password salt : Bytes) (opsLimit : Nat) (fragmentKey : Bytes) :
    SeparatesCosts (twoCostSodium kib) password salt opsLimit fragmentKey where
  costs := by
    intro first second passwordKey stretched restretched
    have apart : List.replicate 32 (0 : UInt8) ≠ List.replicate 32 1 := by decide
    rcases twoCostSodium_some stretched with ⟨cost, rfl⟩ | ⟨cost, rfl⟩ <;>
      rcases twoCostSodium_some restretched with ⟨other, same⟩ | ⟨other, same⟩
    · exact cost.trans other.symm
    · exact absurd same apart
    · exact absurd same.symm apart
    · exact cost.trans other.symm
  keys := by
    intro first second passwordKey other stretched restretched same
    rwa [keyedHash_twoCost _ _ (twoCostSodium_width stretched),
      keyedHash_twoCost _ _ (twoCostSodium_width restretched)] at same

/-- It lets the sender derive a key. -/
theorem uploadAeadKey_twoCost {password : String} (usable : Usable password) (given : options.password = some password) :
    uploadAeadKey (twoCostSodium (memLimitOf options / 1024)) random options = .ok (List.replicate 32 0) := by
  have width : ¬random.fragmentKey.val.length ≠ aeadKeyBytes := not_not.mpr random.fragmentKey.property
  rw [uploadAeadKey_password usable given]
  simp only [twoCostSodium, if_true, Option.elim_some]
  rw [deriveAeadKey, throwIf, if_neg width]
  exact congrArg Except.ok (keyedHash_twoCost (memLimitOf options / 1024) random.fragmentKey rfl)

theorem differentKey {password : String} (usable : Usable password) (given : options.password = some password)
    (upper : ¬memLimitOf options % 1024 < 512) : ¬SameKey random options := by
  intro same
  have sender := @uploadAeadKey_twoCost random options _ usable given
  exact otherKey usable given upper (twoCostSodium_separates _ _ _ _ _) sender
    (same _ (twoCostSodium_wholeKib _) sampleConfig sampleFile "" [] _ sender)

/-- In the lower half of a KiB both sides stretch with the same number of them. -/
theorem sameKey_lower {password : String} (usable : Usable password) (given : options.password = some password)
    (lower : memLimitOf options % 1024 < 512) : SameKey random options := by
  intro sodium wholeKib config file expiresAt encryptedMeta key sender
  rw [downloadAeadKey_password usable given, memLimitKib_eq_div.mpr lower,
    wholeKib _ _ _ (memLimitOf options / 1024 * 1024) (memLimitOf options)
      (Nat.mul_div_cancel _ (by decide)),
    ← uploadAeadKey_password usable given]
  exact sender

/-- The recipient gets the sender's key if and only if the memory limit exceeds a whole
number of KiB by less than half of one, whatever the library, and with every library that
tells costs apart. -/
theorem sameKey_iff {password : String} (usable : Usable password) (given : options.password = some password) :
    (SameKey random options ↔ memLimitOf options % 1024 < 512) ∧
    ∀ sodium, WholeKib sodium →
      SeparatesCosts sodium (stringToBytes password) random.passwordSalt (opsLimitOf options) random.fragmentKey →
      ∀ config file expiresAt encryptedMeta key, uploadAeadKey sodium random options = .ok key →
        (downloadAeadKey sodium random.fragmentKey
          (createRequest sodium config random file options expiresAt encryptedMeta).descriptor
          ⟨options.password, fun _ => false⟩ = .ok key ↔ memLimitOf options % 1024 < 512) := by
  constructor
  · exact ⟨fun same => not_not.mp fun upper => differentKey usable given upper same, sameKey_lower usable given⟩
  · intro sodium wholeKib separates config file expiresAt encryptedMeta key sender
    constructor
    · intro recipient
      exact not_not.mp fun upper => otherKey usable given upper separates sender recipient
    · intro lower
      exact sameKey_lower usable given lower sodium wholeKib config file expiresAt encryptedMeta key sender

/-- 64 MiB and half a KiB, rounded up. -/
def oddOptions : UploadOptions where
  password := some "correct horse"
  passwordKdfOpsLimit := some 3
  passwordKdfMemLimitBytes := some 67109376

theorem usable_sample : Usable "correct horse" := by decide +kernel

theorem sameKey_iff_sample : (¬SameKey sampleRandom oddOptions ∧ SameKey sampleRandom { oddOptions with
      passwordKdfMemLimitBytes := some 67109375 }) ∧
    uploadAeadKey (twoCostSodium 65536) sampleRandom oddOptions = .ok (List.replicate 32 0) ∧
    downloadAeadKey (twoCostSodium 65536) sampleRandom.fragmentKey
      (createRequest (twoCostSodium 65536) sampleConfig sampleRandom sampleFile oddOptions "" []).descriptor
      ⟨oddOptions.password, fun _ => false⟩ ≠ .ok (List.replicate 32 0) := by
  have sender : uploadAeadKey (twoCostSodium 65536) sampleRandom oddOptions = .ok (List.replicate 32 0) :=
    @uploadAeadKey_twoCost sampleRandom oddOptions _ usable_sample rfl
  refine ⟨⟨fun same => absurd ((sameKey_iff usable_sample rfl).1.mp same) (by decide),
    (sameKey_iff usable_sample rfl).1.mpr (by decide)⟩, sender, fun recipient => ?_⟩
  exact absurd (((sameKey_iff usable_sample rfl).2 _ (twoCostSodium_wholeKib _)
    (twoCostSodium_separates _ _ _ _ _) _ _ _ _ _ sender).mp recipient) (by decide)

/-- Within the gateway's bounds the recipient may get another key. -/
theorem sameKey_fails : ¬∀ (random : Randomness) (options : UploadOptions) (password : String), Usable password →
    options.password = some password → CostBounded options → SameKey random options :=
  fun all => differentKey usable_sample rfl (by decide)
    (all sampleRandom oddOptions _ usable_sample rfl (by decide))

end SlothBox.Proofs
