import GradidoBlockchain.Types

/-!
# Deriving keys

`crypto/sign.c`: the keys of a community, its users and their accounts, each derived from the one
above it. A key pair is derived in place, so that what a call leaves behind is part of what it
answers. HMAC-SHA512 and the keys of Ed25519 are libsodium's, and a parameter.
-/

namespace GradidoBlockchain

namespace Crypto

/-! ### What libsodium computes -/

structure Sodium where
  /-- `crypto_auth_hmacsha512`, of a key and a message. -/
  hmacsha512 : List UInt8 → List UInt8 → Bytes 64
  /-- The secret key of `crypto_sign_seed_keypair`. -/
  seedKeypair : Bytes 32 → Bytes 64

/-- The first half of 64 bytes. -/
def left (bytes : Bytes 64) : Bytes 32 := Vector.ofFn fun i => bytes[i.val]

/-- The second half. -/
def right (bytes : Bytes 64) : Bytes 32 := Vector.ofFn fun i => bytes[32 + i.val]

/-- `grdc_sign_key_pair`. The seed is the first half of the private key. -/
structure SignKeyPair where
  privateKey : Bytes 64
  chainCode : Bytes 32
  deriving DecidableEq

namespace SignKeyPair

def seed (keyPair : SignKeyPair) : Bytes 32 := left keyPair.privateKey

end SignKeyPair

/-- `HARDENED_KEY_BITMASK`. -/
def hardenedKeyBitmask : UInt32 := 0x80000000

/-- An outcome, and what the key pair holds then. -/
abbrev Derived : Type := Except ArnmResult Unit × SignKeyPair

/-- What a call does on with the key pair it has, unless it has failed. -/
def andThen (derived : Derived) (next : SignKeyPair → Derived) : Derived :=
  match derived with
  | (.ok (), keyPair) => next keyPair
  | (.error code, keyPair) => (.error code, keyPair)

@[simp] theorem andThen_ok (keyPair : SignKeyPair) (next : SignKeyPair → Derived) :
    andThen (.ok (), keyPair) next = next keyPair :=
  rfl

variable (sodium : Sodium)

/-- The key pair that 64 bytes of a digest make. -/
def keyPairOf (digest : Bytes 64) : SignKeyPair := ⟨sodium.seedKeypair (left digest), right digest⟩

/-- `"ed25519 seed"`. -/
def curveId : List UInt8 := [0x65, 0x64, 0x32, 0x35, 0x35, 0x31, 0x39, 0x20, 0x73, 0x65, 0x65, 0x64]

/-- `grdc_sign_key_pair_generate_from_seed`. -/
def generateFromSeed (keyPair : SignKeyPair) (seed : List UInt8) : Derived :=
  if seed.length < 16 ∨ 64 < seed.length then (.error .invalidParam, keyPair)
  else (.ok (), keyPairOf sodium (sodium.hmacsha512 curveId seed))

/-- Four bytes, the most significant one first. -/
def bigEndian (word : UInt32) : List UInt8 :=
  [(word >>> 24).toUInt8, (word >>> 16).toUInt8, (word >>> 8).toUInt8, word.toUInt8]

/-- What a child is derived from, beside the chain code of its parent. -/
def childData (parent : SignKeyPair) (index : UInt32) : List UInt8 :=
  0 :: parent.seed.toList ++ bigEndian (index ||| hardenedKeyBitmask)

/-- `grdc_sign_key_pair_derive`. The parent has been read before the child is written, which
may be the same one. -/
def derive (keyPair parent : SignKeyPair) (index : UInt32) : Derived :=
  if hardenedKeyBitmask ≤ index then (.error .invalidParam, keyPair)
  else (.ok (),
    keyPairOf sodium (sodium.hmacsha512 parent.chainCode.toList (childData parent index)))

/-- A word of a uuid as it is read in `grdc_sign_key_pair_derive_uuid`, its leading bit taken
off. -/
def uuidWord (uuid : Uuid) (i : Fin 4) : UInt32 :=
  let word :=
    UInt32.ofNat
      (uuid[4 * i.val].toNat * 2 ^ 24 + uuid[4 * i.val + 1].toNat * 2 ^ 16 +
        uuid[4 * i.val + 2].toNat * 2 ^ 8 + uuid[4 * i.val + 3].toNat)
  if hardenedKeyBitmask ≤ word then word - hardenedKeyBitmask else word

/-- A round of the loop after the first, which derives in place. -/
def deriveOnward (derived : Derived) (index : UInt32) : Derived :=
  andThen derived fun keyPair => derive sodium keyPair keyPair index

/-- `grdc_sign_key_pair_derive_uuid`. -/
def deriveUuid (keyPair parent : SignKeyPair) (uuid : Uuid) : Derived :=
  [uuidWord uuid 1, uuidWord uuid 2, uuidWord uuid 3].foldl (deriveOnward sodium)
    (derive sodium keyPair parent (uuidWord uuid 0))

/-- `grdc_sign_key_pair_derive_account_from_community`. -/
def deriveAccountFromCommunity (keyPair : SignKeyPair) (communityRootSeed : Bytes 32)
    (userUuid : Uuid) (accountIndex : UInt32) : Derived :=
  if accountIndex = 0 then (.error .invalidParam, keyPair)
  else
    andThen (generateFromSeed sodium keyPair communityRootSeed.toList) fun root =>
      andThen (deriveUuid sodium root root userUuid) fun user =>
        derive sodium user user accountIndex

/-! ### Paths

A key by the path that leads to it, as SLIP-10 has it: from the master key of a seed, along one
index after the other. -/

/-- The child at an index. -/
def child (parent : SignKeyPair) (index : UInt32) : SignKeyPair :=
  keyPairOf sodium (sodium.hmacsha512 parent.chainCode.toList (childData parent index))

/-- The key that a path leads to. -/
def descend (start : SignKeyPair) (path : List UInt32) : SignKeyPair :=
  path.foldl (child sodium) start

@[simp] theorem descend_cons (start : SignKeyPair) (index : UInt32) (path : List UInt32) :
    descend sodium start (index :: path) = descend sodium (child sodium start index) path :=
  List.foldl_cons ..

/-- The key of a seed, above all others. -/
def master (seed : List UInt8) : SignKeyPair := keyPairOf sodium (sodium.hmacsha512 curveId seed)

/-- The four indices of a user. -/
def uuidPath (uuid : Uuid) : List UInt32 :=
  [uuidWord uuid 0, uuidWord uuid 1, uuidWord uuid 2, uuidWord uuid 3]

/-- Some word of the two uuids differs in another bit than its leading one. -/
def DifferBelowLeadingBits (uuid uuid' : Uuid) : Prop :=
  ∃ i : Fin 4, uuid[4 * i.val].toNat % 128 ≠ uuid'[4 * i.val].toNat % 128 ∨
    uuid[4 * i.val + 1] ≠ uuid'[4 * i.val + 1] ∨ uuid[4 * i.val + 2] ≠ uuid'[4 * i.val + 2] ∨
    uuid[4 * i.val + 3] ≠ uuid'[4 * i.val + 3]

/-! ### What a call answers and leaves -/

theorem derive_ok {index : UInt32} (hindex : index < hardenedKeyBitmask)
    (keyPair parent : SignKeyPair) :
    derive sodium keyPair parent index = (.ok (), child sodium parent index) := by
  rw [derive, if_neg (UInt32.not_le.mpr hindex), child]

theorem derive_refused {index : UInt32} (hindex : hardenedKeyBitmask ≤ index)
    (keyPair parent : SignKeyPair) :
    derive sodium keyPair parent index = (.error .invalidParam, keyPair) := by
  rw [derive, if_pos hindex]

theorem toNat_uuidWord (uuid : Uuid) (i : Fin 4) :
    (uuidWord uuid i).toNat =
      uuid[4 * i.val].toNat % 128 * 2 ^ 24 + uuid[4 * i.val + 1].toNat * 2 ^ 16 +
        uuid[4 * i.val + 2].toNat * 2 ^ 8 + uuid[4 * i.val + 3].toNat := by
  have h0 := uuid[4 * i.val].toNat_lt
  have h1 := uuid[4 * i.val + 1].toNat_lt
  have h2 := uuid[4 * i.val + 2].toNat_lt
  have h3 := uuid[4 * i.val + 3].toNat_lt
  have hmask : hardenedKeyBitmask.toNat = 2 ^ 31 := rfl
  rw [uuidWord]
  split
  · rename_i hmarked
    rw [UInt32.toNat_sub_of_le _ _ hmarked, hmask]
    rw [UInt32.le_iff_toNat_le, hmask] at hmarked
    rw [UInt32.toNat_ofNat'] at hmarked ⊢
    omega
  · rename_i hplain
    rw [UInt32.le_iff_toNat_le, hmask] at hplain
    rw [UInt32.toNat_ofNat'] at hplain ⊢
    omega

theorem uuidWord_lt (uuid : Uuid) (i : Fin 4) : uuidWord uuid i < hardenedKeyBitmask := by
  have h0 := Nat.mod_lt uuid[4 * i.val].toNat (show 0 < 128 by decide)
  have h1 := uuid[4 * i.val + 1].toNat_lt
  have h2 := uuid[4 * i.val + 2].toNat_lt
  have h3 := uuid[4 * i.val + 3].toNat_lt
  rw [UInt32.lt_iff_toNat_lt, toNat_uuidWord, show hardenedKeyBitmask.toNat = 2 ^ 31 from rfl]
  omega

theorem uuidWord_eq_iff {uuid uuid' : Uuid} {i : Fin 4} :
    uuidWord uuid i = uuidWord uuid' i ↔
      uuid[4 * i.val].toNat % 128 = uuid'[4 * i.val].toNat % 128 ∧
        uuid[4 * i.val + 1] = uuid'[4 * i.val + 1] ∧ uuid[4 * i.val + 2] = uuid'[4 * i.val + 2] ∧
        uuid[4 * i.val + 3] = uuid'[4 * i.val + 3] := by
  have h1 := uuid[4 * i.val + 1].toNat_lt
  have h2 := uuid[4 * i.val + 2].toNat_lt
  have h3 := uuid[4 * i.val + 3].toNat_lt
  have h1' := uuid'[4 * i.val + 1].toNat_lt
  have h2' := uuid'[4 * i.val + 2].toNat_lt
  have h3' := uuid'[4 * i.val + 3].toNat_lt
  rw [← UInt32.toNat_inj, toNat_uuidWord, toNat_uuidWord, ← UInt8.toNat_inj, ← UInt8.toNat_inj,
    ← UInt8.toNat_inj]
  omega

theorem lt_of_mem_uuidPath {uuid : Uuid} {index : UInt32} (hmem : index ∈ uuidPath uuid) :
    index < hardenedKeyBitmask := by
  simp only [uuidPath, List.mem_cons, List.not_mem_nil, or_false] at hmem
  obtain hword | hword | hword | hword := hmem <;> exact hword ▸ uuidWord_lt _ _

/-- The rounds of the loop walk down a path. -/
theorem foldl_deriveOnward {path : List UInt32} (hpath : ∀ index ∈ path, index < hardenedKeyBitmask)
    (keyPair : SignKeyPair) :
    path.foldl (deriveOnward sodium) (.ok (), keyPair) = (.ok (), descend sodium keyPair path) := by
  induction path generalizing keyPair with
  | nil => rfl
  | cons index path ih =>
      rw [List.foldl_cons, deriveOnward, andThen_ok,
        derive_ok sodium (hpath index List.mem_cons_self)]
      exact ih (fun later hlater => hpath later (List.mem_cons_of_mem _ hlater)) _

theorem deriveUuid_eq (keyPair parent : SignKeyPair) (uuid : Uuid) :
    deriveUuid sodium keyPair parent uuid = (.ok (), descend sodium parent (uuidPath uuid)) := by
  rw [deriveUuid, derive_ok sodium (uuidWord_lt uuid 0), foldl_deriveOnward]
  · simp only [uuidPath, descend_cons]
  intro index hmem
  exact lt_of_mem_uuidPath (List.mem_cons_of_mem _ hmem)

theorem generateFromSeed_eq (keyPair : SignKeyPair) (communityRootSeed : Bytes 32) :
    generateFromSeed sodium keyPair communityRootSeed.toList =
      (.ok (), master sodium communityRootSeed.toList) := by
  rw [generateFromSeed, if_neg, master]
  rw [Vector.length_toList]
  decide

theorem deriveAccountFromCommunity_eq (keyPair : SignKeyPair) (communityRootSeed : Bytes 32)
    (userUuid : Uuid) {accountIndex : UInt32} (hindex : accountIndex ≠ 0) :
    deriveAccountFromCommunity sodium keyPair communityRootSeed userUuid accountIndex =
      derive sodium (descend sodium (master sodium communityRootSeed.toList) (uuidPath userUuid))
        (descend sodium (master sodium communityRootSeed.toList) (uuidPath userUuid))
        accountIndex := by
  rw [deriveAccountFromCommunity, if_neg hindex, generateFromSeed_eq, andThen_ok, deriveUuid_eq,
    andThen_ok]

end Crypto

end GradidoBlockchain
