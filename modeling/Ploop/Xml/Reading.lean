import Ploop.Xml.Tree
import Ploop.Xml.Paths

/-!
# Reading a descriptor

`ploop_clear_dd` leaves the numbers of the old descriptor, and `parse_xml`
sets a number only when its node is there.
-/

namespace Ploop.Xml

open Dd

/-- All fields that `parse_xml` sets. The mode is `PLOOP_RAW_MODE`,
`PLOOP_EXPANDED_PREALLOCATED_MODE` or neither. -/
structure Descriptor extends DiskImagesData where
  preallocated : Bool
  heads : ℕ
  cylinders : ℕ
  sectors : ℕ
  maxDeltaSize : ℕ
  keyId : Option (List Char)
  excl : raw = true → preallocated = false
  deriving DecidableEq

/-! ## `parse_xml` -/

/-- What the nodes of a file set; `parse_xml` assigns each of them at most once and
reads none of the old fields. -/
structure Parsed where
  size : Option ℕ
  maxDeltaSize : Option ℕ
  cylinders : Option ℕ
  heads : Option ℕ
  sectors : Option ℕ
  keyId : Option (List Char)
  vol : Option VolumeData
  blocksize : Option ℕ
  images : List ImageData
  raw : Bool
  preallocated : Bool
  excl : raw = true → preallocated = false
  topGuid : Option Guid
  snapshots : List SnapshotData

def parseNumber (params : Node) (tag : Tag) : Option ℕ :=
  (params.findChildNode tag).bind fun n => parseUl n.getElementTxt

def parseKeyId (root : Node) : Option (List Char) :=
  (root.seek [.disk_Parameters, .encryption, .keyId]).bind Node.getElementTxt

def parseParent (basedir : Path) (volume : Node) : Option (Option Path) :=
  match volume.findChildNode .parent with
  | none => some none
  | some n => n.getElementTxt.bind fun data => (getFullPath basedir data).map some

def parseSnapGuid (volume : Node) : Option (Option Guid) :=
  match volume.findChildNode .snapshotGUID with
  | none => some none
  | some n => n.getElementTxt.map some

def parseVolume (basedir : Path) (root : Node) : Option (Option VolumeData) :=
  match root.seek [.storageData, .volume] with
  | none => some none
  | some volume => do
      let parent ← parseParent basedir volume
      let snapGuid ← parseSnapGuid volume
      some (some ⟨parent, snapGuid, (volume.findChildNode .readOnly).isSome⟩)

def parseBlocksize (storage : Node) : Option (Option ℕ) :=
  match storage.findChildNode .blocksize with
  | none => some none
  | some n => (parseUl n.getElementTxt).map fun val => some (val % 2 ^ 32)

def parsePreallocated (storage : Node) : Option Bool :=
  match storage.findChildNode .preallocated with
  | none => some false
  | some n => (parseUl n.getElementTxt).bind fun val => if 1 < val then none else some (val = 1)

/-- The loop over `Storage` and what follows it. -/
def onlyStorage (storageData : Node) : Option Node :=
  match storageData.childrenFrom .storage with
  | [] => none
  | storage :: rest => if rest.any Node.isElement then none else some storage

/-- `ploop_add_image_entry`, and whether the image is plain. -/
def parseImage (basedir : Path) (n : Node) : Option (ImageData × Bool) := do
  let guidNode ← n.findChildNode .guid
  let guid := guidNode.getElementTxt.getD []
  let plain := (n.findChildNode .type).any fun t => t.getElementTxt = some "Plain".toList
  let fileNode ← n.findChildNode .file
  let file ← fileNode.getElementTxt
  let image ← getFullPath basedir file
  if isValidGuid guid then some (⟨guid, image, false⟩, plain) else none

def parseImages (basedir : Path) (storage : Node) : Option (List (ImageData × Bool)) :=
  ((storage.childrenFrom .image).filter Node.isElement).mapM (parseImage basedir)

def parseTopGuid (snapshots : Node) : Option (Option Guid) :=
  match snapshots.findChildNode .topGUID with
  | none => some none
  | some n => n.getElementTxt.map some

/-- `ploop_add_snapshot_entry` -/
def parseShot (n : Node) : Option SnapshotData := do
  let guidNode ← n.findChildNode .guid
  let guid ← guidNode.getElementTxt
  let parentNode ← n.findChildNode .parentGUID
  let parentGuid ← parentNode.getElementTxt
  if isValidGuid guid && isValidGuid parentGuid then
    some ⟨guid, parentGuid, (n.findChildNode .temporary).isSome, false⟩
  else none

def parseShots (snapshots : Node) : Option (List SnapshotData) :=
  ((snapshots.childrenFrom .shot).filter Node.isElement).mapM parseShot

def parseXml (basedir : Path) (root : Node) : Option Parsed := do
  let params ← root.findChildNode .disk_Parameters
  let vol ← parseVolume basedir root
  let storage ← (root.findChildNode .storageData).bind onlyStorage
  let blocksize ← parseBlocksize storage
  let isPreallocated ← parsePreallocated storage
  let images ← parseImages basedir storage
  let raw := images.any Prod.snd
  if hmode : raw = true ∧ isPreallocated = true then none
  else do
    let snapshots ← root.findChildNode .snapshots
    let topGuid ← parseTopGuid snapshots
    let shots ← parseShots snapshots
    some {
      size := parseNumber params .disk_size
      maxDeltaSize := parseNumber params .max_delta_size
      cylinders := (parseNumber params .cylinders).map (· % 2 ^ 32)
      heads := (parseNumber params .heads).map (· % 2 ^ 32)
      sectors := (parseNumber params .sectors).map (· % 2 ^ 32)
      keyId := parseKeyId root
      vol := vol
      blocksize := blocksize
      images := images.map Prod.fst
      raw := raw
      preallocated := isPreallocated
      excl := fun hraw => Bool.eq_false_of_not_eq_true fun hpre => hmode ⟨hraw, hpre⟩
      topGuid := topGuid
      snapshots := shots }

/-- Fields without a node keep their old value, and entries are appended. -/
def Parsed.store (p : Parsed) (d : Descriptor) : Descriptor where
  size := p.size.getD d.size
  maxDeltaSize := p.maxDeltaSize.getD d.maxDeltaSize
  cylinders := p.cylinders.getD d.cylinders
  heads := p.heads.getD d.heads
  sectors := p.sectors.getD d.sectors
  keyId := p.keyId.or d.keyId
  vol := p.vol.or d.vol
  blocksize := p.blocksize.getD d.blocksize
  images := d.images ++ p.images
  raw := p.raw
  preallocated := p.preallocated
  excl := p.excl
  topGuid := p.topGuid.or d.topGuid
  snapshots := d.snapshots ++ p.snapshots

/-! ## `read_dd` -/

/-- `ploop_clear_dd` -/
def clear (d : Descriptor) : Descriptor :=
  { d with images := [], snapshots := [], topGuid := none, keyId := none, vol := none }

/-- A missing entry for the top delta is added. -/
def addTop (d : Descriptor) : Descriptor :=
  if d.images.length ≠ d.snapshots.length then
    { d with
      snapshots := d.snapshots ++ [⟨topdeltaUuid, noneUuid, false, false⟩]
      topGuid := d.topGuid.or (some topdeltaUuid) }
  else d

def defaultTop (d : Descriptor) : Descriptor :=
  if d.topGuid = none ∧ (d.findSnapshotByGuid topdeltaUuid).isSome then
    { d with topGuid := some topdeltaUuid }
  else d

def hasTop (d : Descriptor) : Bool :=
  match d.topGuid with
  | none => false
  | some top => isValidGuid top && (d.snapshotByGuid top).any fun s => !s.temporary

def validateDiskDescriptor (d : Descriptor) : Option Descriptor :=
  if d.vol.isSome then some d
  else if d.images = [] then none
  else if ¬ isValidBlocksize d.blocksize then none
  else
    let d := defaultTop (addTop d)
    if hasTop d && d.images.length = d.snapshots.length then some d else none

/-- `basedir` is that of the file, and `root` what is in it. -/
def readDd (basedir : Path) (root : Node) (d : Descriptor) : Option Descriptor :=
  (parseXml basedir root).bind fun p => validateDiskDescriptor (p.store (clear d))

/-! ## What depends on the old descriptor -/

/-- The file sets every number. -/
def Sets (root : Node) : Prop :=
  (∀ tag ∈ [Tag.disk_size, .max_delta_size, .cylinders, .heads, .sectors],
    ((root.seek [.disk_Parameters, tag]).bind fun n => parseUl n.getElementTxt).isSome) ∧
    (root.seek [.storageData, .storage, .blocksize]).isSome

instance (root : Node) : Decidable (Sets root) := inferInstanceAs (Decidable (_ ∧ _))

structure Parsed.Full (p : Parsed) : Prop where
  size : p.size.isSome
  maxDeltaSize : p.maxDeltaSize.isSome
  cylinders : p.cylinders.isSome
  heads : p.heads.isSome
  sectors : p.sectors.isSome
  blocksize : p.blocksize.isSome

theorem onlyStorage_eq {storageData storage : Node} (h : onlyStorage storageData = some storage) :
    storageData.findChildNode .storage = some storage := by
  unfold onlyStorage at h
  split at h
  case h_1 => cases h
  case h_2 first rest hlist =>
    split at h
    case isTrue => cases h
    case isFalse => rw [Node.findChildNode, hlist, List.head?_cons, Option.some.inj h]

theorem parseBlocksize_isSome {storage : Node} {b : Option ℕ}
    (h : parseBlocksize storage = some b) :
    b.isSome = (storage.findChildNode .blocksize).isSome := by
  unfold parseBlocksize at h
  split at h
  case h_1 hnone =>
    obtain rfl := Option.some.inj h
    rw [hnone]
    rfl
  case h_2 n hsome =>
    obtain ⟨val, -, rfl⟩ := Option.map_eq_some_iff.mp h
    rw [hsome]
    rfl

theorem full_iff {basedir : Path} {root : Node} {p : Parsed} (h : parseXml basedir root = some p) :
    p.Full ↔ Sets root := by
  unfold parseXml at h
  obtain ⟨params, hparams, h⟩ := Option.bind_eq_some_iff.mp h
  obtain ⟨vol, -, h⟩ := Option.bind_eq_some_iff.mp h
  obtain ⟨storage, hstorage, h⟩ := Option.bind_eq_some_iff.mp h
  obtain ⟨blocksize, hblocksize, h⟩ := Option.bind_eq_some_iff.mp h
  obtain ⟨preallocated, -, h⟩ := Option.bind_eq_some_iff.mp h
  obtain ⟨images, -, h⟩ := Option.bind_eq_some_iff.mp h
  obtain ⟨storageData, hdata, hstorage⟩ := Option.bind_eq_some_iff.mp hstorage
  dsimp only at h
  split at h
  case isTrue => cases h
  case isFalse =>
    obtain ⟨snapshots, -, h⟩ := Option.bind_eq_some_iff.mp h
    obtain ⟨topGuid, -, h⟩ := Option.bind_eq_some_iff.mp h
    obtain ⟨shots, -, h⟩ := Option.bind_eq_some_iff.mp h
    obtain rfl := Option.some.inj h
    have hnumber (tag : Tag) : ((root.seek [.disk_Parameters, tag]).bind fun n =>
        parseUl n.getElementTxt) = parseNumber params tag := by
      simp [Node.seek, hparams, parseNumber]
    have hseek : (root.seek [.storageData, .storage, .blocksize]).isSome = blocksize.isSome := by
      simp [Node.seek, hdata, onlyStorage_eq hstorage, parseBlocksize_isSome hblocksize]
    have hmod (o : Option ℕ) : (o.map (· % 2 ^ 32)).isSome = o.isSome := Option.isSome_map
    constructor
    · intro hp
      refine ⟨fun tag htag => ?_, hseek.trans hp.blocksize⟩
      rw [hnumber]
      simp only [List.mem_cons, List.not_mem_nil, or_false] at htag
      rcases htag with rfl | rfl | rfl | rfl | rfl
      · exact hp.size
      · exact hp.maxDeltaSize
      · exact (hmod _).symm.trans hp.cylinders
      · exact (hmod _).symm.trans hp.heads
      · exact (hmod _).symm.trans hp.sectors
    · rintro ⟨hall, hblock⟩
      simp only [hnumber, List.forall_mem_cons] at hall
      obtain ⟨hsize, hmax, hcylinders, hheads, hsectors, -⟩ := hall
      exact ⟨hsize, hmax, (hmod _).trans hcylinders, (hmod _).trans hheads,
        (hmod _).trans hsectors, hseek.symm.trans hblock⟩

/-! ## Reading twice -/

/-- The same volume, images, snapshots and top. -/
structure SameEntries (d d' : Descriptor) : Prop where
  vol : d'.vol = d.vol
  images : d'.images = d.images
  snapshots : d'.snapshots = d.snapshots
  topGuid : d'.topGuid = d.topGuid

theorem SameEntries.addTop {d d' : Descriptor} (h : SameEntries d d') :
    SameEntries (addTop d) (addTop d') := by
  unfold Xml.addTop
  rw [h.images, h.snapshots]
  split
  case isTrue => exact ⟨h.vol, rfl, rfl, congrArg (·.or (some topdeltaUuid)) h.topGuid⟩
  case isFalse => exact h

theorem SameEntries.defaultTop {d d' : Descriptor} (h : SameEntries d d') :
    SameEntries (defaultTop d) (defaultTop d') := by
  unfold Xml.defaultTop DiskImagesData.findSnapshotByGuid
  rw [h.snapshots, h.topGuid]
  split
  case isTrue => exact ⟨h.vol, h.images, rfl, rfl⟩
  case isFalse => exact h

theorem SameEntries.hasTop {d d' : Descriptor} (h : SameEntries d d') : hasTop d' = hasTop d := by
  unfold Xml.hasTop DiskImagesData.snapshotByGuid
  rw [h.topGuid, h.snapshots]

/-- Validation looks at no number but the block size. -/
theorem SameEntries.validate_isSome {d d' : Descriptor} (h : SameEntries d d')
    (hblock : isValidBlocksize d.blocksize → isValidBlocksize d'.blocksize)
    (hd : (validateDiskDescriptor d).isSome) : (validateDiskDescriptor d').isSome := by
  unfold validateDiskDescriptor at hd ⊢
  rw [h.vol]
  split at hd
  case isTrue hvol => rw [if_pos hvol, Option.isSome_some]
  case isFalse hvol =>
    rw [if_neg hvol, h.images]
    split at hd
    case isTrue => cases hd
    case isFalse himages =>
      rw [if_neg himages]
      split at hd
      case isTrue => cases hd
      case isFalse hvalid =>
        have htop := h.addTop.defaultTop
        rw [if_neg (not_not.mpr (hblock (not_not.mp hvalid)))]
        dsimp only at hd ⊢
        rw [htop.hasTop, htop.images, htop.snapshots]
        split at hd
        case isTrue hok => rw [if_pos hok, Option.isSome_some]
        case isFalse => cases hd

/-- It changes none of the numbers. -/
theorem validate_numbers {d r : Descriptor} (h : validateDiskDescriptor d = some r) :
    r.size = d.size ∧ r.maxDeltaSize = d.maxDeltaSize ∧ r.cylinders = d.cylinders ∧
      r.heads = d.heads ∧ r.sectors = d.sectors ∧ r.blocksize = d.blocksize := by
  have hadd : (addTop d).size = d.size ∧ (addTop d).maxDeltaSize = d.maxDeltaSize ∧
      (addTop d).cylinders = d.cylinders ∧ (addTop d).heads = d.heads ∧
      (addTop d).sectors = d.sectors ∧ (addTop d).blocksize = d.blocksize := by
    unfold addTop
    split <;> exact ⟨rfl, rfl, rfl, rfl, rfl, rfl⟩
  unfold validateDiskDescriptor at h
  split at h
  case isTrue =>
    obtain rfl := Option.some.inj h
    exact ⟨rfl, rfl, rfl, rfl, rfl, rfl⟩
  case isFalse =>
    split at h
    case isTrue => cases h
    case isFalse =>
      split at h
      case isTrue => cases h
      case isFalse =>
        dsimp only at h
        split at h
        case isTrue =>
          obtain rfl := Option.some.inj h
          unfold defaultTop
          split <;> exact hadd
        case isFalse => cases h

theorem sameEntries_store (p : Parsed) (d d' : Descriptor) :
    SameEntries (p.store (clear d)) (p.store (clear d')) :=
  ⟨rfl, rfl, rfl, rfl⟩

theorem Parsed.Full.store_eq {p : Parsed} (h : p.Full) (d d' : Descriptor) :
    p.store (clear d) = p.store (clear d') := by
  have hget {o : Option ℕ} (ho : o.isSome) (a b : ℕ) : o.getD a = o.getD b := by
    obtain ⟨v, rfl⟩ := Option.isSome_iff_exists.mp ho
    rfl
  unfold Parsed.store
  rw [hget h.size, hget h.maxDeltaSize, hget h.cylinders, hget h.heads, hget h.sectors,
    hget h.blocksize]
  rfl

def otherNumber (n : ℕ) : ℕ := if n = 0 then 1 else 0

theorem otherNumber_ne (n : ℕ) : n ≠ otherNumber n := by
  unfold otherNumber
  split <;> omega

/-- No number of the old descriptor as it was. -/
def stale (d : Descriptor) : Descriptor :=
  { d with
    size := otherNumber d.size
    maxDeltaSize := otherNumber d.maxDeltaSize
    cylinders := otherNumber d.cylinders
    heads := otherNumber d.heads
    sectors := otherNumber d.sectors
    blocksize := if d.blocksize = 64 then 128 else 64 }

/-- A file that can be read is read without a trace of the old descriptor exactly if
it sets every number. -/
theorem readDd_memoryless_iff {basedir : Path} {root : Node}
    (h : ∃ d r, readDd basedir root d = some r) :
    (∀ d d' r r', readDd basedir root d = some r → readDd basedir root d' = some r' → r = r') ↔
      Sets root := by
  obtain ⟨d, r, hd⟩ := h
  obtain ⟨p, hp, hr⟩ := Option.bind_eq_some_iff.mp hd
  rw [← full_iff hp]
  constructor
  · intro hsame
    have hvalid : isValidBlocksize (p.store (clear d)).blocksize →
        isValidBlocksize (p.store (clear (stale d))).blocksize := by
      intro hold
      cases hb : p.blocksize with
      | some b => simpa [Parsed.store, hb] using hold
      | none =>
          change isValidBlocksize (p.blocksize.getD (if d.blocksize = 64 then 128 else 64))
          rw [hb]
          split <;> decide
    have hsome := (sameEntries_store p d (stale d)).validate_isSome hvalid
      (Option.isSome_iff_exists.mpr ⟨r, hr⟩)
    obtain ⟨r', hr'⟩ := Option.isSome_iff_exists.mp hsome
    have heq : r = r' := hsame d (stale d) r r' hd (by rw [readDd, hp, Option.bind_some, hr'])
    obtain ⟨hsize, hmax, hcylinders, hheads, hsectors, hblock⟩ := validate_numbers hr
    obtain ⟨hsize', hmax', hcylinders', hheads', hsectors', hblock'⟩ := validate_numbers hr'
    subst heq
    have hset {o : Option ℕ} {a b : ℕ} (hab : a ≠ b) (ho : o.getD a = o.getD b) : o.isSome := by
      cases o with
      | none => exact absurd ho hab
      | some _ => rfl
    have hother : d.blocksize ≠ if d.blocksize = 64 then 128 else 64 := by split <;> omega
    exact {
      size := hset (otherNumber_ne _) (hsize.symm.trans hsize')
      maxDeltaSize := hset (otherNumber_ne _) (hmax.symm.trans hmax')
      cylinders := hset (otherNumber_ne _) (hcylinders.symm.trans hcylinders')
      heads := hset (otherNumber_ne _) (hheads.symm.trans hheads')
      sectors := hset (otherNumber_ne _) (hsectors.symm.trans hsectors')
      blocksize := hset hother (hblock.symm.trans hblock') }
  · intro hfull d d' r r' hr hr'
    rw [readDd, hp, Option.bind_some] at hr hr'
    rw [hfull.store_eq d d'] at hr
    exact Option.some.inj (hr.symm.trans hr')

def leaf (tag : Tag) (content : String) : Node := .element tag [.text content.toList]

/-- What is written for one plain image and no maximum delta size. -/
def plainFile (maxDelta : List Node) : Node :=
  .element (.other []) [
    .element .disk_Parameters ([leaf .disk_size "2048"] ++ maxDelta ++
      [leaf .cylinders "2", leaf .heads "16", leaf .sectors "63"]),
    .element .storageData [.element .storage [leaf .blocksize "2048",
      .element .image [.element .guid [.text topdeltaUuid], leaf .type "Plain",
        leaf .file "root.hdd"]]],
    .element .snapshots [.element .topGUID [.text topdeltaUuid],
      .element .shot [.element .guid [.text topdeltaUuid], .element .parentGUID [.text noneUuid]]]]

def blank (maxDelta : ℕ) : Descriptor where
  size := 0
  blocksize := 0
  raw := false
  images := []
  snapshots := []
  topGuid := none
  vol := none
  preallocated := false
  heads := 0
  cylinders := 0
  sectors := 0
  maxDeltaSize := maxDelta
  keyId := none
  excl := nofun

theorem readDd_memoryless_small :
    (∀ d d' r r', readDd "/d/".toList (plainFile [leaf .max_delta_size "7"]) d = some r →
      readDd "/d/".toList (plainFile [leaf .max_delta_size "7"]) d' = some r' → r = r') ↔
        Sets (plainFile [leaf .max_delta_size "7"]) := by
  have hread : (readDd "/d/".toList (plainFile [leaf .max_delta_size "7"]) (blank 0)).isSome := by
    decide
  obtain ⟨r, hr⟩ := Option.isSome_iff_exists.mp hread
  exact readDd_memoryless_iff ⟨_, r, hr⟩

/-- The maximum delta size of the old descriptor is still there. -/
theorem readDd_keeps_maxDeltaSize :
    ¬ ∀ basedir root d d' r r', readDd basedir root d = some r →
      readDd basedir root d' = some r' → r = r' := by
  intro h
  have hone : (readDd "/d/".toList (plainFile []) (blank 1)).map (·.maxDeltaSize) = some 1 := by
    decide
  have htwo : (readDd "/d/".toList (plainFile []) (blank 2)).map (·.maxDeltaSize) = some 2 := by
    decide
  obtain ⟨r, hr, hrone⟩ := Option.map_eq_some_iff.mp hone
  obtain ⟨r', hr', hrtwo⟩ := Option.map_eq_some_iff.mp htwo
  have hsame := h _ _ _ _ r r' hr hr'
  rw [hsame, hrtwo] at hrone
  cases hrone

end Ploop.Xml
