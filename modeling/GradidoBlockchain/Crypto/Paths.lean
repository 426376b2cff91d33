import GradidoBlockchain.Crypto.Sign
import Mathlib.Algebra.Ring.Nat
import Mathlib.Data.List.GetD
import Mathlib.Data.List.OfFn

/-!
# The paths of users and accounts

Which users share their keys, and what an account derivation leaves behind. A derivation asks
HMAC-SHA512 once for each index of its path; as long as no two requests of two derivations collide,
equal keys mean equal paths.
-/

namespace GradidoBlockchain

namespace Crypto

/-! ### What is asked for an index -/

theorem bigEndian_injective {word word' : UInt32}
    (h : bigEndian word = bigEndian word') : word = word' := by
  have hlow := word.toNat_lt
  have hlow' := word'.toNat_lt
  simp only [bigEndian, List.cons.injEq, and_true, ← UInt8.toNat_inj, UInt32.toNat_toUInt8,
    UInt32.toNat_shiftRight, Nat.shiftRight_eq_div_pow] at h
  obtain ⟨h24, h16, h8, h0⟩ := h
  rw [show UInt32.toNat 24 % 32 = 24 from rfl] at h24
  rw [show UInt32.toNat 16 % 32 = 16 from rfl] at h16
  rw [show UInt32.toNat 8 % 32 = 8 from rfl] at h8
  apply UInt32.toNat_inj.mp
  omega

theorem toNat_hardened {index : UInt32} (hindex : index < hardenedKeyBitmask) :
    (index ||| hardenedKeyBitmask).toNat = 2 ^ 31 + index.toNat := by
  have hbound : index.toNat < 2 ^ 31 := hindex
  rw [UInt32.toNat_or, Nat.or_comm, show hardenedKeyBitmask.toNat = 2 ^ 31 * 1 from rfl,
    ← Nat.two_pow_add_eq_or_of_lt hbound, Nat.mul_one]

theorem childData_injective {parent parent' : SignKeyPair} {index index' : UInt32}
    (hindex : index < hardenedKeyBitmask) (hindex' : index' < hardenedKeyBitmask)
    (h : childData parent index = childData parent' index') :
    parent.seed = parent'.seed ∧ index = index' := by
  rw [childData, childData, List.cons_append, List.cons_append, List.cons.injEq] at h
  obtain ⟨hseed, hword⟩ := List.append_inj h.2 (by rw [Vector.length_toList, Vector.length_toList])
  have hnumber := congrArg UInt32.toNat (bigEndian_injective hword)
  rw [toNat_hardened hindex, toNat_hardened hindex'] at hnumber
  exact ⟨Vector.toList_inj.mp hseed, UInt32.toNat_inj.mp (by omega)⟩

/-! ### Keys and paths -/

variable (sodium : Sodium)

/-- libsodium keeps the seed in the secret key, before the public key. -/
def Sodium.KeepsSeed : Prop := ∀ seed, left (sodium.seedKeypair seed) = seed

/-- What HMAC-SHA512 is asked along a path, each time with the chain code as its key. -/
def requests (start : SignKeyPair) : List UInt32 → List (List UInt8 × List UInt8)
  | [] => []
  | index :: path =>
      (start.chainCode.toList, childData start index) :: requests (child sodium start index) path

/-- HMAC-SHA512 tells some requests apart. -/
def CollisionFree (asked : List (List UInt8 × List UInt8)) : Prop :=
  ∀ request ∈ asked, ∀ request' ∈ asked, sodium.hmacsha512 request.1 request.2 =
      sodium.hmacsha512 request'.1 request'.2 → request = request'

variable {sodium}

theorem CollisionFree.tails {start start' : SignKeyPair} {index index' : UInt32}
    {path path' : List UInt32}
    (hfree : CollisionFree sodium
      (requests sodium start (index :: path) ++ requests sodium start' (index' :: path'))) :
    CollisionFree sodium
      (requests sodium (child sodium start index) path ++
        requests sodium (child sodium start' index') path') := by
  have hmem : ∀ request ∈ requests sodium (child sodium start index) path ++ requests sodium (child sodium start' index') path',
      request ∈
          requests sodium start (index :: path) ++ requests sodium start' (index' :: path') := by
    intro request hrequest
    obtain h | h := List.mem_append.mp hrequest
    · exact List.mem_append_left _ (List.mem_cons_of_mem _ h)
    · exact List.mem_append_right _ (List.mem_cons_of_mem _ h)
  exact fun request hrequest request' hrequest' =>
    hfree request (hmem request hrequest) request' (hmem request' hrequest')

theorem left_right_injective {bytes bytes' : Bytes 64} (hleft : left bytes = left bytes')
    (hright : right bytes = right bytes') : bytes = bytes' := by
  apply Vector.ext
  intro i hi
  by_cases hhalf : i < 32
  · have h := congrArg (fun half : Bytes 32 => half[i]) hleft
    simpa only [left, Vector.getElem_ofFn] using h
  · have h := congrArg (fun half : Bytes 32 => half[i - 32]) hright
    simpa only [right, Vector.getElem_ofFn, show 32 + (i - 32) = i by omega] using h

/-- Equal keys at the ends of two paths are the same path. -/
theorem path_eq_of_descend_eq (hkeeps : sodium.KeepsSeed) {start start' : SignKeyPair}
    {path path' : List UInt32} (hlength : path.length = path'.length)
    (hpath : ∀ index ∈ path, index < hardenedKeyBitmask)
    (hpath' : ∀ index ∈ path', index < hardenedKeyBitmask)
    (hfree : CollisionFree sodium (requests sodium start path ++ requests sodium start' path'))
    (h : descend sodium start path = descend sodium start' path') :
    path = path' ∧ start.seed = start'.seed ∧ start.chainCode = start'.chainCode := by
  induction path generalizing start start' path' with
  | nil =>
      obtain rfl := List.length_eq_zero_iff.mp hlength.symm
      rw [show start = start' from h]
      exact ⟨rfl, rfl, rfl⟩
  | cons index path ih =>
      obtain - | ⟨index', path'⟩ := path'
      · cases hlength
      have hindex := hpath index List.mem_cons_self
      have hindex' := hpath' index' List.mem_cons_self
      -- the keys below the two starts agree, and with them what was asked for them
      obtain ⟨rfl, hseed, hchain⟩ :=
        ih (Nat.succ.inj hlength) (fun later hlater => hpath later (List.mem_cons_of_mem _ hlater))
          (fun later hlater => hpath' later (List.mem_cons_of_mem _ hlater)) hfree.tails h
      rw [SignKeyPair.seed, SignKeyPair.seed, child, child, keyPairOf, keyPairOf, hkeeps, hkeeps]
        at hseed
      have hasked :=
        hfree _ (List.mem_append_left _ List.mem_cons_self) _
          (List.mem_append_right _ List.mem_cons_self) (left_right_injective hseed hchain)
      obtain ⟨hcodes, hdata⟩ := Prod.mk.inj hasked
      obtain ⟨hseeds, rfl⟩ := childData_injective hindex hindex' hdata
      exact ⟨rfl, hseeds, Vector.toList_inj.mp hcodes⟩

/-! ### Users -/

/-- Two users of one parent are fed different indices and, as far as HMAC-SHA512 tells apart what it
is asked on their ways, are given different keys. -/
def WalkTheirOwnPaths (uuid uuid' : Uuid) : Prop :=
  uuidPath uuid ≠ uuidPath uuid' ∧
    ∀ (sodium : Sodium) (keyPair keyPair' parent : SignKeyPair), sodium.KeepsSeed →
      CollisionFree sodium
        (requests sodium parent (uuidPath uuid) ++ requests sodium parent (uuidPath uuid')) →
      (deriveUuid sodium keyPair parent uuid).2 ≠ (deriveUuid sodium keyPair' parent uuid').2

theorem uuidPath_eq (uuid : Uuid) : uuidPath uuid = List.ofFn (uuidWord uuid) := rfl

theorem uuidPath_eq_iff {uuid uuid' : Uuid} :
    uuidPath uuid = uuidPath uuid' ↔ ∀ i, uuidWord uuid i = uuidWord uuid' i := by
  rw [uuidPath_eq, uuidPath_eq, List.ofFn_inj, funext_iff]

theorem uuidPath_ne_iff {uuid uuid' : Uuid} :
    uuidPath uuid ≠ uuidPath uuid' ↔ DifferBelowLeadingBits uuid uuid' := by
  rw [Ne, uuidPath_eq_iff, DifferBelowLeadingBits, not_forall]
  apply exists_congr
  intro i
  rw [uuidWord_eq_iff, not_and_or, not_and_or, not_and_or]

theorem walkTheirOwnPaths_iff (uuid uuid' : Uuid) :
    WalkTheirOwnPaths uuid uuid' ↔ DifferBelowLeadingBits uuid uuid' := by
  rw [WalkTheirOwnPaths, ← uuidPath_ne_iff]
  apply and_iff_left_of_imp
  intro hpaths sodium keyPair keyPair' parent hkeeps hfree h
  rw [deriveUuid_eq, deriveUuid_eq] at h
  have hlength : (uuidPath uuid).length = (uuidPath uuid').length := by
    rw [uuidPath_eq, uuidPath_eq, List.length_ofFn, List.length_ofFn]
  exact hpaths
    (path_eq_of_descend_eq hkeeps hlength (fun _ => lt_of_mem_uuidPath)
      (fun _ => lt_of_mem_uuidPath) hfree h).1

/-- A digest that records the indices walked so far, so that no two requests of a
derivation collide. -/
def recording : Sodium where
  hmacsha512 _ message := Vector.ofFn fun i => if i.val < 32 then (message.drop 5).getD i 0 else 0
  seedKeypair seed := Vector.ofFn fun i => seed[i.val % 32]

theorem recording_keepsSeed : recording.KeepsSeed := by
  intro seed
  apply Vector.ext
  intro i hi
  simp only [left, recording, Vector.getElem_ofFn, Nat.mod_eq_of_lt hi]

/-- It forgets the first five bytes of what it is asked for a child, and no other. -/
theorem drop_eq_of_recording {code code' message message' : List UInt8}
    (hlength : message.length = 37) (hlength' : message'.length = 37)
    (h : recording.hmacsha512 code message = recording.hmacsha512 code' message') :
    message.drop 5 = message'.drop 5 := by
  apply List.ext_getElem
  · rw [List.length_drop, List.length_drop, hlength, hlength']
  intro i hi hi'
  have hbound : i < 32 := by rw [List.length_drop, hlength] at hi; exact hi
  have hbyte := congrArg (fun digest : Bytes 64 => digest[i]) h
  simp only [recording, Vector.getElem_ofFn, hbound, if_true] at hbyte
  rwa [List.getD_eq_getElem _ _ hi, List.getD_eq_getElem _ _ hi'] at hbyte

/-- What it is asked after some rounds on the way of a uuid of zeros: each request carries
the ones before it. -/
def walked (rounds : ℕ) (last : UInt8) : List UInt8 × List UInt8 :=
  (List.replicate 32 0,
    List.replicate (33 - 4 * rounds) 0 ++ (List.replicate rounds [0x80, 0, 0, 0]).flatten ++
      [0x80, 0, 0, last])

theorem recording_collisionFree :
    CollisionFree recording
      (requests recording ⟨zeroBytes 64, zeroBytes 32⟩ (uuidPath (zeroBytes 16)) ++
        requests recording ⟨zeroBytes 64, zeroBytes 32⟩ (uuidPath ((zeroBytes 16).set 15 1))) := by
  have hasked : requests recording ⟨zeroBytes 64, zeroBytes 32⟩ (uuidPath (zeroBytes 16)) ++
        requests recording ⟨zeroBytes 64, zeroBytes 32⟩ (uuidPath ((zeroBytes 16).set 15 1)) =
      [walked 0 0, walked 1 0, walked 2 0, walked 3 0, walked 0 0, walked 1 0, walked 2 0,
        walked 3 1] := by decide +kernel
  have hheads : ∀ request ∈ [walked 0 0, walked 1 0, walked 2 0, walked 3 0, walked 0 0, walked 1 0, walked 2 0, walked 3 1],
      request.2.length = 37 ∧ request.1 = List.replicate 32 0 ∧
          request.2.take 5 = List.replicate 5 0 := by decide +kernel
  rw [hasked]
  intro request hrequest request' hrequest' h
  obtain ⟨hlength, hcode, hhead⟩ := hheads request hrequest
  obtain ⟨hlength', hcode', hhead'⟩ := hheads request' hrequest'
  have hdrop := drop_eq_of_recording hlength hlength' h
  apply Prod.ext (hcode.trans hcode'.symm)
  rw [← List.take_append_drop 5 request.2, ← List.take_append_drop 5 request'.2, hhead, hhead',
    hdrop]

/-- Two uuids that their last bit tells apart are given different keys by it. -/
theorem walkTheirOwnPaths_iff_recording :
    (deriveUuid recording ⟨zeroBytes 64, zeroBytes 32⟩ ⟨zeroBytes 64, zeroBytes 32⟩
        (zeroBytes 16)).2 ≠
      (deriveUuid recording ⟨zeroBytes 64, zeroBytes 32⟩ ⟨zeroBytes 64, zeroBytes 32⟩
        ((zeroBytes 16).set 15 1)).2 := by
  have hdiffer : DifferBelowLeadingBits (zeroBytes 16) ((zeroBytes 16).set 15 1) :=
    uuidPath_ne_iff.1 (by decide)
  exact ((walkTheirOwnPaths_iff _ _).2 hdiffer).2 recording _ _ _ recording_keepsSeed
    recording_collisionFree

/-- Two uuids that only the leading bit tells apart. -/
theorem not_walkTheirOwnPaths :
    ¬ ∀ uuid uuid' : Uuid, uuid ≠ uuid' → WalkTheirOwnPaths uuid uuid' := by
  intro h
  have hpaths := (h (zeroBytes 16) ((zeroBytes 16).set 0 0x80) (by decide)).1
  exact hpaths (by decide)

/-! ### Accounts -/

/-- A derivation that fails leaves the key pair as it was, and one that succeeds the key at the path
of the account, whatever was there. -/
def LeavesNoKeyBehind (sodium : Sodium) (communityRootSeed : Bytes 32) (userUuid : Uuid)
    (accountIndex : UInt32) : Prop :=
  ∀ keyPair : SignKeyPair,
    match deriveAccountFromCommunity sodium keyPair communityRootSeed userUuid accountIndex with
    | (.error _, left) => left = keyPair
    | (.ok (), left) =>
        left =
          descend sodium (master sodium communityRootSeed.toList)
            (uuidPath userUuid ++ [accountIndex])

theorem exists_ne_keyPair (keyPair : SignKeyPair) : ∃ other : SignKeyPair, keyPair ≠ other := by
  by_cases h : keyPair = ⟨zeroBytes 64, zeroBytes 32⟩
  · exact ⟨⟨zeroBytes 64, Vector.replicate 32 1⟩, h ▸ by decide⟩
  · exact ⟨_, h⟩

theorem leavesNoKeyBehind_iff (sodium : Sodium) (communityRootSeed : Bytes 32) (userUuid : Uuid)
    (accountIndex : UInt32) :
    LeavesNoKeyBehind sodium communityRootSeed userUuid accountIndex ↔
      accountIndex < hardenedKeyBitmask := by
  rw [LeavesNoKeyBehind]
  by_cases hzero : accountIndex = 0
  · simp only [hzero, deriveAccountFromCommunity, if_true, implies_true, true_iff]
    decide
  simp only [deriveAccountFromCommunity_eq sodium _ _ _ hzero]
  by_cases hindex : accountIndex < hardenedKeyBitmask
  · simp only [derive_ok sodium hindex, descend, List.foldl_append, List.foldl_cons, List.foldl_nil,
      implies_true, hindex]
  · simp only [derive_refused sodium (UInt32.not_lt.mp hindex), hindex, iff_false, not_forall]
    exact exists_ne_keyPair _

/-- An index with the hardening bit set leaves the key of the user, from which those of
all accounts follow. -/
theorem not_leavesNoKeyBehind :
    ¬ ∀ (sodium : Sodium) (communityRootSeed : Bytes 32) (userUuid : Uuid) (accountIndex : UInt32),
      LeavesNoKeyBehind sodium communityRootSeed userUuid accountIndex := by
  intro h
  have hleft :=
    h recording (zeroBytes 32) (zeroBytes 16) 0x80000000 ⟨zeroBytes 64, Vector.replicate 32 1⟩
  rw [deriveAccountFromCommunity_eq _ _ _ _ (by decide), derive_refused _ (by decide)] at hleft
  have hcodes := congrArg SignKeyPair.chainCode hleft
  exact absurd hcodes (by decide)

end Crypto

end GradidoBlockchain
