import Ploop.Xml.Reading
import Mathlib.Data.List.TakeWhile

/-!
# Writing a descriptor

`store_diskdescriptor` writes numbers in decimal and paths relative to the
directory, and omits what is zero or missing. What `read_dd` makes of the
file is compared with the object that was stored.
-/

namespace Ploop.Xml

open Dd

/-! ## `store_diskdescriptor` -/

/-- `convert_disk_descriptor` -/
def convertDiskDescriptor (d : Descriptor) : Option Descriptor :=
  if d.vol.isSome then some d
  else match d.topGuid with
    | none => none
    | some top =>
        if guidEq top topdeltaUuid then some d
        else if (d.findImageByGuid topdeltaUuid).isSome ∨
            (d.findSnapshotByGuid topdeltaUuid).isSome then none
        else some { d with toDiskImagesData := d.changeGuid top topdeltaUuid, excl := d.excl }

/-- An element with some text; of an empty one nothing is left. -/
def textElement (tag : Tag) (content : List Char) : Node :=
  .element tag (if content = [] then [] else [.text content])

/-- `%u` and `%llu` -/
def fmtU (n : ℕ) : List Char := Nat.toDigits 10 n

/-- `%d` of an `unsigned int`. -/
def fmtD (n : ℕ) : List Char :=
  if n < 2 ^ 31 then fmtU n else '-' :: fmtU (2 ^ 32 - n)

/-- The divisor is an `unsigned int`, and a zero stops the program. -/
def sectorsOf (d : Descriptor) : Option ℕ :=
  if d.cylinders = 0 ∨ d.heads = 0 then some 0
  else if d.cylinders * d.heads % 2 ^ 32 = 0 then none
  else some (d.size / (d.cylinders * d.heads % 2 ^ 32))

def encryptionNodes (d : Descriptor) : List Node :=
  match d.keyId with
  | none => []
  | some keyId => [.element .encryption [textElement .keyId keyId]]

def parametersNode (d : Descriptor) (sectors : ℕ) : Node :=
  .element .disk_Parameters ([textElement .disk_size (fmtU d.size)] ++
    (if d.maxDeltaSize ≠ 0 then [textElement .max_delta_size (fmtU d.maxDeltaSize)] else []) ++
    [textElement .cylinders (fmtU d.cylinders), textElement .heads (fmtU d.heads),
      textElement .sectors (fmtU sectors), textElement .padding (fmtU 0)] ++ encryptionNodes d)

def parentNodes (basedir : Path) (vol : VolumeData) : Option (List Node) :=
  match vol.parent with
  | none => some []
  | some parent => (getRelativePath basedir parent).map fun r => [textElement .parent r]

def volumeNode (parent : List Node) (vol : VolumeData) : Node :=
  .element .volume (parent ++ (vol.snapGuid.elim [] fun g => [textElement .snapshotGUID g]) ++
    (if vol.ro then [textElement .readOnly (fmtU 1)] else []))

def volumeNodes (basedir : Path) (d : Descriptor) : Option (List Node) :=
  match d.vol with
  | none => some []
  | some vol => (parentNodes basedir vol).map fun parent => [volumeNode parent vol]

def imageNode (basedir : Path) (raw : Bool) (i : ImageData) : Option Node :=
  (getRelativePath basedir i.file).map fun r =>
    .element .image [textElement .guid i.guid,
      textElement .type (if raw then "Plain".toList else "Compressed".toList), textElement .file r]

def storageNode (d : Descriptor) (images : List Node) : Node :=
  .element .storage ([textElement .start (fmtU 0), textElement .end_ (fmtU d.size),
    textElement .blocksize (fmtD d.blocksize)] ++
    (if d.preallocated then [textElement .preallocated (fmtU 1)] else []) ++ images)

def shotNode (s : SnapshotData) : Node :=
  .element .shot ([textElement .guid s.guid, textElement .parentGUID s.parentGuid] ++
    if s.temporary then [textElement .temporary []] else [])

def snapshotsNode (d : Descriptor) : Node :=
  .element .snapshots ((d.topGuid.elim [] fun g => [textElement .topGUID g]) ++
    d.toXml.snapshots.map shotNode)

/-- The tree of the file. -/
def toTree (basedir : Path) (d : Descriptor) : Option Node := do
  let sectors ← sectorsOf d
  let volume ← volumeNodes basedir d
  let images ← d.toXml.images.mapM (imageNode basedir d.raw)
  some (.element (.other "Parallels_disk_image".toList) [parametersNode d sectors,
    .element .storageData (volume ++ [storageNode d images]), snapshotsNode d])

/-- What is left in memory, and what is in the file. -/
def storeDiskdescriptor (basedir : Path) (skipConvert : Bool) (d : Descriptor) :
    Option (Descriptor × Node) :=
  (if skipConvert then some d else convertDiskDescriptor d).bind fun e =>
    (toTree basedir e).map fun root => (e, root)

/-! ## Numbers -/

theorem digitValue_of_isDigit {c : Char} (h : c.isDigit) :
    digitValue c = c.toNat - '0'.toNat ∧ digitValue c < 10 := by
  have hc : '0' ≤ c ∧ c ≤ '9' := by simpa [Char.isDigit, Char.le_def] using h
  have hval : digitValue c = c.toNat - '0'.toNat := if_pos hc
  have hle : c.toNat ≤ '9'.toNat := hc.2
  have hnine : '9'.toNat = 57 := rfl
  have hzero : '0'.toNat = 48 := rfl
  exact ⟨hval, by omega⟩

theorem valueOf_eq {l : List Char} (h : ∀ c ∈ l, c.isDigit) :
    valueOf 10 l = Nat.ofDigitChars 10 l 0 := by
  unfold valueOf Nat.ofDigitChars
  refine List.foldl_ext _ _ _ fun v c hc => ?_
  rw [(digitValue_of_isDigit (h c hc)).1]

theorem isDigit_fmtU {n : ℕ} {c : Char} (h : c ∈ fmtU n) : c.isDigit :=
  Nat.isDigit_of_mem_toDigits (by norm_num) le_rfl h

/-- No leading zero. -/
theorem head_fmtU {n : ℕ} (h : n ≠ 0) : ∃ c l, fmtU n = c :: l ∧ c ≠ '0' := by
  induction n using Nat.strongRecOn with
  | ind n ih =>
      rcases Nat.lt_or_ge n 10 with hlt | hge
      · refine ⟨n.digitChar, [], Nat.toDigits_of_lt_base hlt, ?_⟩
        interval_cases n <;> first | exact absurd rfl h | decide
      · obtain ⟨c, l, hcl, hc⟩ := ih (n / 10) (by omega) (by omega)
        refine ⟨c, l ++ [(n % 10).digitChar], ?_, hc⟩
        rw [fmtU, Nat.toDigits_of_base_le (by norm_num) hge]
        rw [fmtU] at hcl
        rw [hcl]
        rfl

theorem ne_of_isDigit {c d : Char} (hc : c.isDigit) (hd : d.isDigit = false) : c ≠ d := by
  rintro rfl
  rw [hc] at hd
  cases hd

theorem takeSign_fmtU (n : ℕ) : takeSign ((fmtU n).dropWhile isSpace) = (false, fmtU n) := by
  obtain ⟨c, l, hcl⟩ := List.exists_cons_of_ne_nil (Nat.toDigits_ne_nil (n := n) (b := 10))
  have hc : c.isDigit := isDigit_fmtU (n := n) (by rw [fmtU, hcl]; exact List.mem_cons_self)
  have hspace : ¬ isSpace c := by
    intro h
    simp only [isSpace, Bool.or_eq_true, decide_eq_true_eq] at h
    rcases h with ((((h | h) | h) | h) | h) | h <;> exact ne_of_isDigit hc (by decide) h
  rw [fmtU, hcl, List.dropWhile_cons_of_neg hspace]
  unfold takeSign
  split
  case h_1 heq => exact absurd (List.cons.inj heq).1 (ne_of_isDigit hc (by decide))
  case h_2 heq => exact absurd (List.cons.inj heq).1 (ne_of_isDigit hc (by decide))
  case h_3 => rfl

/-- Zero is octal, and everything else decimal. -/
theorem takeBase_fmtU (n : ℕ) : ∃ base, takeBase (fmtU n) = (base, fmtU n) ∧
    (∀ c ∈ fmtU n, isDigitOf base c) ∧ valueOf base (fmtU n) = n := by
  by_cases hn : n = 0
  · subst hn
    refine ⟨8, by decide, fun c hc => ?_, by decide⟩
    have hzero : fmtU 0 = ['0'] := by decide
    rw [hzero, List.mem_singleton] at hc
    rw [hc]
    decide
  obtain ⟨c, l, hcl, hc⟩ := head_fmtU hn
  refine ⟨10, ?_, fun d hd => ?_, ?_⟩
  · rw [hcl]
    unfold takeBase
    split
    case h_1 heq => exact absurd (List.cons.inj heq).1 hc
    case h_2 heq => exact absurd (List.cons.inj heq).1 hc
    case h_3 heq => exact absurd (List.cons.inj heq).1 hc
    case h_4 => rfl
  · exact decide_eq_true (digitValue_of_isDigit (isDigit_fmtU hd)).2
  · rw [valueOf_eq fun d hd => isDigit_fmtU hd]
    exact Nat.ofDigitChars_ten_toDigits

theorem strtoul_signed {s : List Char} {neg : Bool} {n : ℕ} (hn : n < 2 ^ 64)
    (hs : takeSign (s.dropWhile isSpace) = (neg, fmtU n)) :
    strtoul s = (if neg then (2 ^ 64 - n) % 2 ^ 64 else n, []) := by
  obtain ⟨base, hbase, hdigits, hvalue⟩ := takeBase_fmtU n
  have htake : (fmtU n).takeWhile (isDigitOf base) = fmtU n :=
    List.takeWhile_eq_self_iff.mpr hdigits
  have hdrop : (fmtU n).dropWhile (isDigitOf base) = [] := List.dropWhile_eq_nil_iff.mpr hdigits
  have hne : fmtU n ≠ [] := Nat.toDigits_ne_nil
  have hmax : ¬ ulongMax < n := by
    unfold ulongMax
    omega
  simp only [strtoul, hs, hbase, htake, hdrop, hvalue, if_neg hne, if_neg hmax]

theorem parseUl_fmtU {n : ℕ} (hn : n < 2 ^ 64) : parseUl (some (fmtU n)) = some n := by
  rw [parseUl, Option.bind_some, strtoul_signed hn (takeSign_fmtU n)]
  rfl

/-- A block size from 2^31 on is written as a negative number and read back. -/
theorem parseUl_fmtD {n : ℕ} (hn : n < 2 ^ 32) :
    (parseUl (some (fmtD n))).map (· % 2 ^ 32) = some n := by
  unfold fmtD
  split
  case isTrue =>
    rw [parseUl_fmtU (by omega), Option.map_some, Nat.mod_eq_of_lt hn]
  case isFalse h =>
    have hsign : takeSign (('-' :: fmtU (2 ^ 32 - n)).dropWhile isSpace) =
        (true, fmtU (2 ^ 32 - n)) := by
      rw [List.dropWhile_cons_of_neg (by decide)]
      rfl
    have hlt : 2 ^ 32 - n < 2 ^ 64 := by omega
    rw [parseUl, Option.bind_some, strtoul_signed hlt hsign]
    simp only [if_true, Option.map_some, Option.some.injEq]
    omega

/-! ## Finding what was written -/

theorem findChildNode_eq (n : Node) (tag : Tag) :
    n.findChildNode tag = n.children.find? (Node.hasTag tag) := by
  unfold Node.findChildNode Node.childrenFrom
  induction n.children with
  | nil => rfl
  | cons c l ih =>
      cases hc : c.hasTag tag <;> simp [hc, ih]

@[simp] theorem hasTag_element (tag tag' : Tag) (l : List Node) :
    (Node.element tag' l).hasTag tag = decide (tag' = tag) := rfl

@[simp] theorem hasTag_textElement (tag tag' : Tag) (content : List Char) :
    (textElement tag' content).hasTag tag = decide (tag' = tag) := rfl

theorem getElementTxt_textElement {content : List Char} (h : content ≠ []) (tag : Tag) :
    (textElement tag content).getElementTxt = some content := by
  simp [textElement, h, Node.getElementTxt, Node.children]

theorem fmtU_ne_nil (n : ℕ) : fmtU n ≠ [] := Nat.toDigits_ne_nil

theorem fmtD_ne_nil (n : ℕ) : fmtD n ≠ [] := by
  unfold fmtD
  split
  · exact fmtU_ne_nil n
  · exact List.cons_ne_nil _ _

/-- A number whose node is the first of its name. -/
theorem parseNumber_of_find {params : Node} {tag : Tag} {n : ℕ} (hn : n < 2 ^ 64)
    (h : params.children.find? (Node.hasTag tag) = some (textElement tag (fmtU n))) :
    parseNumber params tag = some n := by
  rw [parseNumber, findChildNode_eq, h, Option.bind_some,
    getElementTxt_textElement (fmtU_ne_nil n), parseUl_fmtU hn]

theorem find_encryptionNodes {d : Descriptor} {tag : Tag} (h : tag ≠ .encryption) :
    (encryptionNodes d).find? (Node.hasTag tag) = none := by
  unfold encryptionNodes
  split
  · rfl
  · simp [h.symm]

/-- The fields have the width of their types. -/
structure InRange (d : Descriptor) : Prop where
  size : d.size < 2 ^ 64
  maxDeltaSize : d.maxDeltaSize < 2 ^ 64
  cylinders : d.cylinders < 2 ^ 32
  heads : d.heads < 2 ^ 32
  blocksize : d.blocksize < 2 ^ 32

theorem parseNumber_parametersNode {d : Descriptor} (h : InRange d) (sectors : ℕ) :
    parseNumber (parametersNode d sectors) .disk_size = some d.size ∧
      (parseNumber (parametersNode d sectors) .max_delta_size).getD 0 = d.maxDeltaSize ∧
      parseNumber (parametersNode d sectors) .cylinders = some d.cylinders ∧
      parseNumber (parametersNode d sectors) .heads = some d.heads := by
  have hcylinders := h.cylinders
  have hheads := h.heads
  refine ⟨parseNumber_of_find h.size rfl, ?_, parseNumber_of_find (by omega) ?_,
    parseNumber_of_find (by omega) ?_⟩
  · by_cases hmax : d.maxDeltaSize = 0
    · have hnone : parseNumber (parametersNode d sectors) .max_delta_size = none := by
        rw [parseNumber, findChildNode_eq]
        simp [parametersNode, Node.children, hmax, find_encryptionNodes]
      rw [hnone, hmax]
      rfl
    · rw [parseNumber_of_find h.maxDeltaSize]
      · rfl
      · simp [parametersNode, Node.children, hmax]
  · by_cases hmax : d.maxDeltaSize = 0 <;> simp [parametersNode, Node.children, hmax]
  · by_cases hmax : d.maxDeltaSize = 0 <;> simp [parametersNode, Node.children, hmax]

/-- The file around its three parts. -/
def fileNode (params storageData snapshots : Node) : Node :=
  .element (.other "Parallels_disk_image".toList) [params, storageData, snapshots]

theorem parseKeyId_toTree {d : Descriptor} {sectors : ℕ} {storageData snapshots : Node}
    (h : d.keyId ≠ some []) :
    parseKeyId (fileNode (parametersNode d sectors) storageData snapshots) = d.keyId := by
  have hparams : (fileNode (parametersNode d sectors) storageData snapshots).findChildNode
      .disk_Parameters = some (parametersNode d sectors) := rfl
  have henc : (parametersNode d sectors).findChildNode .encryption = (encryptionNodes d).head? := by
    rw [findChildNode_eq]
    unfold encryptionNodes
    by_cases hmax : d.maxDeltaSize = 0 <;> cases hkey : d.keyId <;>
      simp [parametersNode, Node.children, hmax, encryptionNodes, hkey]
  rw [parseKeyId, Node.seek, hparams, Option.bind_some, Node.seek, henc]
  unfold encryptionNodes
  cases hkey : d.keyId with
  | none => rfl
  | some keyId =>
      have hne : keyId ≠ [] := fun hnil => h (hkey.trans (congrArg some hnil))
      exact getElementTxt_textElement hne .keyId

/-! ## The volume -/

/-- The paths and guids of a volume can be read back. -/
structure Readable.Vol (v : VolumeData) : Prop where
  parent : ∀ p, v.parent = some p → Storable p
  snapGuid : ∀ g, v.snapGuid = some g → isValidGuid g

theorem ne_nil_of_isValidGuid {g : Guid} (h : isValidGuid g) : g ≠ [] := by
  rintro rfl
  exact absurd h (by decide)

/-- Nothing stands for the directory itself, with its slash. -/
theorem ne_nil_of_getFullPath {dir r path : Path} (hdir : Normal dir) (h : Storable path)
    (hfull : getFullPath (dir ++ ['/']) r = some path) : r ≠ [] := by
  rintro rfl
  have hnil : getFullPath (dir ++ ['/']) [] =
      if (dir ++ ['/']).length < pathMax then some (dir ++ ['/']) else none := by
    have hup : upDirs 0 (dir ++ ['/']).reverse = '/' :: dir.reverse := by
      rw [List.reverse_append]
      exact upDirs_append [] dir.reverse
    have hnormal : normalizePath [] = [] := rfl
    simp only [getFullPath, slashed_append hdir, hnormal, List.head?_nil, reduceCtorEq, if_false,
      skipDots, hup, List.reverse_cons, List.reverse_reverse, List.append_nil]
  rw [hnil] at hfull
  split at hfull
  case isTrue =>
    obtain rfl := Option.some.inj hfull
    exact h.last List.getLast?_concat
  case isFalse => cases hfull

theorem find_parentNodes {dir : Path} {v : VolumeData} {l : List Node} {tag : Tag}
    (hl : parentNodes dir v = some l) (htag : tag ≠ .parent) :
    l.find? (Node.hasTag tag) = none := by
  unfold parentNodes at hl
  split at hl
  case h_1 =>
    obtain rfl := Option.some.inj hl
    rfl
  case h_2 =>
    obtain ⟨r, -, rfl⟩ := Option.map_eq_some_iff.mp hl
    simp [htag.symm]

theorem find_parent_volumeNode (v : VolumeData) (parent : List Node) :
    (volumeNode parent v).findChildNode .parent = parent.find? (Node.hasTag .parent) := by
  rw [findChildNode_eq]
  cases hguid : v.snapGuid <;> cases hro : v.ro <;> simp [volumeNode, Node.children, hguid, hro]

theorem parseParent_volumeNode {dir : Path} (hdir : Normal dir) (habs : dir.head? = some '/')
    {v : VolumeData} (h : Readable.Vol v) {parent : List Node}
    (hparent : parentNodes dir v = some parent) :
    parseParent (dir ++ ['/']) (volumeNode parent v) = some v.parent := by
  rw [parseParent, find_parent_volumeNode]
  unfold parentNodes at hparent
  cases hp : v.parent with
  | none =>
      rw [hp] at hparent
      obtain rfl := Option.some.inj hparent
      rfl
  | some path =>
      rw [hp] at hparent
      obtain ⟨r, hr, rfl⟩ := Option.map_eq_some_iff.mp hparent
      have hfull := getFullPath_getRelativePath hdir habs (h.parent path hp) hr
      have hne := ne_nil_of_getFullPath hdir (h.parent path hp) hfull
      change (textElement .parent r).getElementTxt.bind _ = _
      rw [getElementTxt_textElement hne, Option.bind_some, hfull]
      rfl

theorem parseSnapGuid_volumeNode {dir : Path} {v : VolumeData} (h : Readable.Vol v)
    {parent : List Node} (hparent : parentNodes dir v = some parent) :
    parseSnapGuid (volumeNode parent v) = some v.snapGuid := by
  have hnone : parent.find? (Node.hasTag .snapshotGUID) = none := find_parentNodes hparent nofun
  rw [parseSnapGuid, findChildNode_eq]
  cases hguid : v.snapGuid with
  | none => cases hro : v.ro <;> simp [volumeNode, Node.children, hnone, hguid, hro]
  | some g =>
      have hne := ne_nil_of_isValidGuid (h.snapGuid g hguid)
      simp [volumeNode, Node.children, hnone, hguid, getElementTxt_textElement hne]

theorem readOnly_volumeNode {dir : Path} (v : VolumeData) {parent : List Node}
    (hparent : parentNodes dir v = some parent) :
    ((volumeNode parent v).findChildNode .readOnly).isSome = v.ro := by
  have hnone : parent.find? (Node.hasTag .readOnly) = none := find_parentNodes hparent nofun
  rw [findChildNode_eq]
  cases hguid : v.snapGuid <;> cases hro : v.ro <;>
    simp [volumeNode, Node.children, hnone, hguid, hro]

theorem parseVolume_toTree {dir : Path} (hdir : Normal dir) (habs : dir.head? = some '/')
    {d : Descriptor} (h : ∀ v, d.vol = some v → Readable.Vol v) {volume images : List Node}
    (hvolume : volumeNodes dir d = some volume) (sectors : ℕ) (snapshots : Node) :
    parseVolume (dir ++ ['/']) (fileNode (parametersNode d sectors)
      (.element .storageData (volume ++ [storageNode d images])) snapshots) = some d.vol := by
  have hseek : (fileNode (parametersNode d sectors)
      (.element .storageData (volume ++ [storageNode d images])) snapshots).seek
        [.storageData, .volume] = volume.find? (Node.hasTag .volume) := by
    have hdata : (fileNode (parametersNode d sectors)
        (.element .storageData (volume ++ [storageNode d images])) snapshots).findChildNode
          .storageData = some (.element .storageData (volume ++ [storageNode d images])) := rfl
    rw [Node.seek, hdata, Option.bind_some, Node.seek, findChildNode_eq]
    simp [Node.children, storageNode, Node.seek]
  rw [parseVolume, hseek]
  unfold volumeNodes at hvolume
  cases hvol : d.vol with
  | none =>
      rw [hvol] at hvolume
      obtain rfl := Option.some.inj hvolume
      rfl
  | some v =>
      rw [hvol] at hvolume
      obtain ⟨parent, hparent, rfl⟩ := Option.map_eq_some_iff.mp hvolume
      have hfind : List.find? (Node.hasTag .volume) [volumeNode parent v] =
          some (volumeNode parent v) := rfl
      rw [hfind]
      simp only [parseParent_volumeNode hdir habs (h v hvol) hparent,
        parseSnapGuid_volumeNode (h v hvol) hparent, readOnly_volumeNode v hparent]
      rfl

/-! ## The storage -/

/-- What is read for the nodes that `f` has written. -/
theorem mapM_of_mapM {α β γ : Type} {f : α → Option β} {g : β → Option γ} {e : α → γ}
    {l : List α} {l' : List β} (hl : l.mapM f = some l')
    (h : ∀ a ∈ l, ∀ b, f a = some b → g b = some (e a)) : l'.mapM g = some (l.map e) := by
  induction l generalizing l' with
  | nil =>
      obtain rfl := Option.some.inj hl
      rfl
  | cons a l ih =>
      rw [List.mapM_cons] at hl
      obtain ⟨b, hb, hl⟩ := Option.bind_eq_some_iff.mp hl
      obtain ⟨bs, hbs, hl⟩ := Option.bind_eq_some_iff.mp hl
      obtain rfl := Option.some.inj hl
      have hrest := ih hbs fun a ha => h a (List.mem_cons_of_mem _ ha)
      rw [List.mapM_cons, h a List.mem_cons_self b hb, hrest]
      rfl

/-- Nodes of one name at the end. -/
theorem childrenFrom_append {tag t : Tag} {l l' : List Node}
    (hl : ∀ c ∈ l, c.hasTag tag = false) (hl' : ∀ c ∈ l', c.hasTag tag = true) :
    (Node.element t (l ++ l')).childrenFrom tag = l' := by
  unfold Node.childrenFrom Node.children
  rw [List.dropWhile_append_of_pos (by simpa using hl)]
  cases l' with
  | nil => rfl
  | cons c l' => rw [List.dropWhile_cons_of_neg (by simp [hl' c List.mem_cons_self])]

theorem parseImage_imageNode {dir : Path} (hdir : Normal dir) (habs : dir.head? = some '/')
    {raw : Bool} {i : ImageData} (hguid : isValidGuid i.guid) (hfile : Storable i.file)
    {n : Node} (hn : imageNode dir raw i = some n) :
    parseImage (dir ++ ['/']) n = some (⟨i.guid, i.file, false⟩, raw) := by
  obtain ⟨r, hr, rfl⟩ := Option.map_eq_some_iff.mp hn
  have hfull := getFullPath_getRelativePath hdir habs hfile hr
  have hne := ne_nil_of_getFullPath hdir hfile hfull
  have hguidtxt := getElementTxt_textElement (ne_nil_of_isValidGuid hguid) .guid
  have hfiletxt := getElementTxt_textElement hne .file
  have htype : (textElement .type (if raw then "Plain".toList else
      "Compressed".toList)).getElementTxt =
        some (if raw then "Plain".toList else "Compressed".toList) :=
    getElementTxt_textElement (by cases raw <;> decide) .type
  have hplain : decide (some (if raw then "Plain".toList else "Compressed".toList) =
      some "Plain".toList) = raw := by
    cases raw <;> decide
  unfold parseImage
  change (do
    let guid := (textElement .guid i.guid).getElementTxt.getD []
    let plain := decide ((textElement .type _).getElementTxt = some "Plain".toList)
    let file ← (textElement .file r).getElementTxt
    let image ← getFullPath (dir ++ ['/']) file
    if isValidGuid guid then some (⟨guid, image, false⟩, plain) else none :
      Option (ImageData × Bool)) = _
  simp only [hguidtxt, hfiletxt, htype, hplain, Option.getD_some, Option.bind_eq_bind,
    Option.bind_some, hfull, hguid, if_true]

theorem parseShot_shotNode {s : SnapshotData} (hguid : isValidGuid s.guid)
    (hparent : isValidGuid s.parentGuid) :
    parseShot (shotNode s) = some ⟨s.guid, s.parentGuid, s.temporary, false⟩ := by
  have hguidtxt := getElementTxt_textElement (ne_nil_of_isValidGuid hguid) .guid
  have hparenttxt := getElementTxt_textElement (ne_nil_of_isValidGuid hparent) .parentGUID
  have htemp : ((shotNode s).findChildNode .temporary).isSome = s.temporary := by
    rw [findChildNode_eq]
    cases h : s.temporary <;> simp [shotNode, Node.children, h]
  unfold parseShot
  change (do
    let guid ← (textElement .guid s.guid).getElementTxt
    let parentGuid ← (textElement .parentGUID s.parentGuid).getElementTxt
    if isValidGuid guid && isValidGuid parentGuid then
      some ⟨guid, parentGuid, ((shotNode s).findChildNode .temporary).isSome, false⟩
    else none : Option SnapshotData) = _
  simp only [hguidtxt, hparenttxt, Option.bind_eq_bind, Option.bind_some, hguid, hparent, htemp,
    Bool.and_self, if_true]

/-! ## The whole file -/

/-- What `read_dd` accepts of a stored object: an image for a raw one to tell the mode,
and without a volume what validation asks for. -/
structure Readable (d : Descriptor) : Prop extends InRange d where
  vol : ∀ v, d.vol = some v → Readable.Vol v
  keyId : d.keyId ≠ some []
  imageGuid : ∀ i ∈ d.toXml.images, isValidGuid i.guid
  imageFile : ∀ i ∈ d.toXml.images, Storable i.file
  shotGuid : ∀ s ∈ d.toXml.snapshots, isValidGuid s.guid ∧ isValidGuid s.parentGuid
  topGuid : ∀ g, d.topGuid = some g → isValidGuid g
  mode : d.raw = true → d.toXml.images ≠ []
  valid : d.vol = none → d.toXml.images ≠ [] ∧ isValidBlocksize d.blocksize ∧
    d.toXml.images.length = d.toXml.snapshots.length ∧
    ∃ g s, d.topGuid = some g ∧ d.toXml.snapshotByGuid g = some s ∧ s.temporary = false

/-- A new object. -/
def fresh : Descriptor := blank 0

section Whole

variable {dir : Path} {d : Descriptor}

theorem find_of_hasTag {l : List Node} {tag tag' : Tag} (h : ∀ n ∈ l, n.hasTag tag = true)
    (hne : tag' ≠ tag) : l.find? (Node.hasTag tag') = none := by
  refine List.find?_eq_none.mpr fun n hn htag => ?_
  have hn := h n hn
  cases n with
  | element t l => exact hne ((of_decide_eq_true htag).symm.trans (of_decide_eq_true hn))
  | text => cases hn
  | other => cases hn

theorem filter_isElement {l : List Node} {tag : Tag} (h : ∀ n ∈ l, n.hasTag tag = true) :
    l.filter Node.isElement = l := by
  refine List.filter_eq_self.mpr fun n hn => ?_
  have hn := h n hn
  cases n with
  | element => rfl
  | text => cases hn
  | other => cases hn

theorem parseBlocksize_storageNode (h : InRange d) (images : List Node) :
    parseBlocksize (storageNode d images) = some (some d.blocksize) := by
  have htxt := getElementTxt_textElement (fmtD_ne_nil d.blocksize) .blocksize
  have hnum := parseUl_fmtD h.blocksize
  change (parseUl (textElement .blocksize (fmtD d.blocksize)).getElementTxt).map _ = _
  rw [htxt]
  obtain ⟨val, hval, hmod⟩ := Option.map_eq_some_iff.mp hnum
  rw [hval, Option.map_some, hmod]

theorem parsePreallocated_storageNode {images : List Node}
    (himages : ∀ n ∈ images, n.hasTag .image = true) :
    parsePreallocated (storageNode d images) = some d.preallocated := by
  have hnone : images.find? (Node.hasTag .preallocated) = none := find_of_hasTag himages nofun
  rw [parsePreallocated, findChildNode_eq]
  cases hpre : d.preallocated with
  | false => simp [storageNode, Node.children, hpre, hnone]
  | true =>
      have hone : parseUl (some (fmtU 1)) = some 1 := parseUl_fmtU (by norm_num)
      simp [storageNode, Node.children, hpre, getElementTxt_textElement (fmtU_ne_nil 1), hone]

theorem childrenFrom_storageNode {images : List Node}
    (himages : ∀ n ∈ images, n.hasTag .image = true) :
    (storageNode d images).childrenFrom .image = images := by
  refine childrenFrom_append (fun c hc => ?_) himages
  simp only [List.mem_append, List.mem_cons, List.not_mem_nil, or_false] at hc
  rcases hc with (rfl | rfl | rfl) | hc
  · rfl
  · rfl
  · rfl
  · split at hc
    · obtain rfl := List.mem_singleton.mp hc
      rfl
    · cases hc

theorem onlyStorage_volume {volume images : List Node} (hvolume : volumeNodes dir d = some volume) :
    onlyStorage (.element .storageData (volume ++ [storageNode d images])) =
      some (storageNode d images) := by
  have htag : ∀ n ∈ volume, n.hasTag .storage = false := by
    intro n hn
    unfold volumeNodes at hvolume
    split at hvolume
    case h_1 =>
      obtain rfl := Option.some.inj hvolume
      cases hn
    case h_2 =>
      obtain ⟨parent, -, rfl⟩ := Option.map_eq_some_iff.mp hvolume
      obtain rfl := List.mem_singleton.mp hn
      rfl
  have hlast : ∀ n ∈ [storageNode d images], n.hasTag .storage = true := by
    intro n hn
    obtain rfl := List.mem_singleton.mp hn
    rfl
  rw [onlyStorage, childrenFrom_append htag hlast]
  rfl

theorem parseTopGuid_snapshotsNode (h : ∀ g, d.topGuid = some g → isValidGuid g) :
    parseTopGuid (snapshotsNode d) = some d.topGuid := by
  rw [parseTopGuid, findChildNode_eq]
  cases htop : d.topGuid with
  | none =>
      have hnone : (d.toXml.snapshots.map shotNode).find? (Node.hasTag .topGUID) = none :=
        List.find?_eq_none.mpr (by simp [shotNode])
      simp only [snapshotsNode, Node.children, htop, Option.elim, List.nil_append, hnone]
  | some g =>
      have htxt := getElementTxt_textElement (ne_nil_of_isValidGuid (h g htop)) .topGUID
      simp [snapshotsNode, Node.children, htop, htxt]

theorem parseShots_snapshotsNode
    (h : ∀ s ∈ d.toXml.snapshots, isValidGuid s.guid ∧ isValidGuid s.parentGuid) :
    parseShots (snapshotsNode d) = some d.toXml.snapshots := by
  have htag : ∀ n ∈ d.toXml.snapshots.map shotNode, n.hasTag .shot = true := by
    intro n hn
    obtain ⟨s, -, rfl⟩ := List.mem_map.mp hn
    rfl
  have htop : ∀ n ∈ d.topGuid.elim [] fun g => [textElement .topGUID g],
      n.hasTag .shot = false := by
    intro n hn
    cases hguid : d.topGuid with
    | none => simp [hguid] at hn
    | some g =>
        rw [hguid] at hn
        obtain rfl := List.mem_singleton.mp hn
        rfl
  have hlist : d.toXml.snapshots.mapM (fun s => some (shotNode s)) =
      some (d.toXml.snapshots.map shotNode) := List.mapM_pure
  have hread : ∀ s ∈ d.toXml.snapshots, ∀ n, some (shotNode s) = some n → parseShot n = some s := by
    rintro s hs n hn
    obtain rfl := Option.some.inj hn
    have halien : s.alien = false := by simpa using (List.mem_filter.mp hs).2
    rw [parseShot_shotNode (h s hs).1 (h s hs).2, ← halien]
  rw [parseShots, snapshotsNode, childrenFrom_append htop htag, filter_isElement htag]
  exact (mapM_of_mapM hlist hread).trans (congrArg some (List.map_id _))

theorem hasTag_images {l : List ImageData} {raw : Bool} {images : List Node}
    (h : l.mapM (imageNode dir raw) = some images) : ∀ n ∈ images, n.hasTag .image = true := by
  induction l generalizing images with
  | nil =>
      obtain rfl := Option.some.inj h
      exact fun n hn => nomatch hn
  | cons i l ih =>
      rw [List.mapM_cons] at h
      obtain ⟨n, hn, h⟩ := Option.bind_eq_some_iff.mp h
      obtain ⟨rest, hrest, h⟩ := Option.bind_eq_some_iff.mp h
      obtain rfl := Option.some.inj h
      obtain ⟨r, -, rfl⟩ := Option.map_eq_some_iff.mp hn
      exact List.forall_mem_cons.mpr ⟨rfl, ih hrest⟩

theorem parseImages_storageNode (hdir : Normal dir) (habs : dir.head? = some '/')
    (hguid : ∀ i ∈ d.toXml.images, isValidGuid i.guid)
    (hfile : ∀ i ∈ d.toXml.images, Storable i.file)
    {images : List Node} (himages : d.toXml.images.mapM (imageNode dir d.raw) = some images) :
    parseImages (dir ++ ['/']) (storageNode d images) =
      some (d.toXml.images.map fun i => (i, d.raw)) := by
  have htag : ∀ n ∈ images, n.hasTag .image = true := hasTag_images himages
  have hread : ∀ i ∈ d.toXml.images, ∀ n, imageNode dir d.raw i = some n →
      parseImage (dir ++ ['/']) n = some (i, d.raw) := by
    intro i hi n hn
    have halien : i.alien = false := by simpa using (List.mem_filter.mp hi).2
    rw [parseImage_imageNode hdir habs (hguid i hi) (hfile i hi) hn, ← halien]
  rw [parseImages, childrenFrom_storageNode htag, filter_isElement htag]
  exact mapM_of_mapM himages hread

end Whole

/-- What `r` keeps of `d`: everything but the geometry and the alien entries. -/
structure SameFields (d r : Descriptor) : Prop where
  data : r.toDiskImagesData = d.toXml
  preallocated : r.preallocated = d.preallocated
  maxDeltaSize : r.maxDeltaSize = d.maxDeltaSize
  keyId : r.keyId = d.keyId

/-- The mode is told by the images. -/
theorem any_raw {d : Descriptor} (h : d.raw = true → d.toXml.images ≠ []) :
    (d.toXml.images.map fun i => (i, d.raw)).any Prod.snd = d.raw := by
  cases hraw : d.raw with
  | false => simp
  | true =>
      obtain ⟨i, l, hl⟩ := List.exists_cons_of_ne_nil (h hraw)
      simp [hl]

theorem parseXml_toTree {dir : Path} (hdir : Normal dir) (habs : dir.head? = some '/')
    {d : Descriptor} (h : Readable d) {root : Node} (hroot : toTree dir d = some root) :
    ∃ p, parseXml (dir ++ ['/']) root = some p ∧ SameFields d (p.store (clear fresh)) := by
  obtain ⟨sectors, -, hroot⟩ := Option.bind_eq_some_iff.mp hroot
  obtain ⟨volume, hvolume, hroot⟩ := Option.bind_eq_some_iff.mp hroot
  obtain ⟨images, himages, hroot⟩ := Option.bind_eq_some_iff.mp hroot
  obtain rfl := Option.some.inj hroot
  obtain ⟨hsize, hmax, -, -⟩ := parseNumber_parametersNode h.toInRange sectors
  have hvol : parseVolume (dir ++ ['/']) (fileNode (parametersNode d sectors)
      (.element .storageData (volume ++ [storageNode d images])) (snapshotsNode d)) = some d.vol :=
    parseVolume_toTree hdir habs h.vol hvolume sectors (snapshotsNode d)
  have hkey : parseKeyId (fileNode (parametersNode d sectors)
      (.element .storageData (volume ++ [storageNode d images])) (snapshotsNode d)) = d.keyId :=
    parseKeyId_toTree h.keyId
  have hstorage : onlyStorage (.element .storageData (volume ++ [storageNode d images])) =
      some (storageNode d images) :=
    onlyStorage_volume hvolume
  have hblocksize := parseBlocksize_storageNode h.toInRange images
  have hpre := parsePreallocated_storageNode (d := d) (hasTag_images himages)
  have hparse := parseImages_storageNode hdir habs h.imageGuid h.imageFile himages
  have htop := parseTopGuid_snapshotsNode h.topGuid
  have hshots := parseShots_snapshotsNode h.shotGuid
  have hraw := any_raw h.mode
  have hmode : ¬ ((d.toXml.images.map fun i => (i, d.raw)).any Prod.snd = true ∧
      d.preallocated = true) := by
    rw [hraw]
    rintro ⟨hplain, hpreallocated⟩
    rw [d.excl hplain] at hpreallocated
    cases hpreallocated
  refine ⟨{
    size := parseNumber (parametersNode d sectors) .disk_size
    maxDeltaSize := parseNumber (parametersNode d sectors) .max_delta_size
    cylinders := (parseNumber (parametersNode d sectors) .cylinders).map (· % 2 ^ 32)
    heads := (parseNumber (parametersNode d sectors) .heads).map (· % 2 ^ 32)
    sectors := (parseNumber (parametersNode d sectors) .sectors).map (· % 2 ^ 32)
    keyId := parseKeyId (fileNode (parametersNode d sectors)
      (.element .storageData (volume ++ [storageNode d images])) (snapshotsNode d))
    vol := d.vol
    blocksize := some d.blocksize
    images := (d.toXml.images.map fun i => (i, d.raw)).map Prod.fst
    raw := (d.toXml.images.map fun i => (i, d.raw)).any Prod.snd
    preallocated := d.preallocated
    excl := fun hplain => d.excl (hraw ▸ hplain)
    topGuid := d.topGuid
    snapshots := d.toXml.snapshots }, ?_, ?_⟩
  · change parseXml (dir ++ ['/']) (fileNode (parametersNode d sectors)
      (.element .storageData (volume ++ [storageNode d images])) (snapshotsNode d)) = _
    unfold parseXml
    change (some (parametersNode d sectors)).bind _ = _
    simp only [Option.bind_some, hvol, Option.bind_eq_bind]
    change ((some (Node.element .storageData (volume ++ [storageNode d images]))).bind
      onlyStorage).bind _ = _
    simp only [Option.bind_some, hstorage, hblocksize, hpre, hparse, dif_neg hmode]
    change ((some (snapshotsNode d)).bind _) = _
    simp only [Option.bind_some, htop, hshots]
  · have hfst : (d.toXml.images.map fun i => (i, d.raw)).map Prod.fst = d.toXml.images := by
      rw [List.map_map]
      exact List.map_id _
    constructor
    · simp only [Parsed.store, hsize, hraw, hfst]
      simp [clear, fresh, blank, DiskImagesData.toXml]
    · rfl
    · exact hmax
    · simp [Parsed.store, clear, hkey]

/-- Nothing is added to a readable descriptor. -/
theorem SameFields.validate {d r : Descriptor} (h : SameFields d r) (hd : Readable d) :
    validateDiskDescriptor r = some r := by
  have hvol : r.vol = d.vol := (congrArg DiskImagesData.vol h.data).trans rfl
  have himages : r.images = d.toXml.images := congrArg DiskImagesData.images h.data
  have hsnapshots : r.snapshots = d.toXml.snapshots := congrArg DiskImagesData.snapshots h.data
  have htop : r.topGuid = d.topGuid := (congrArg DiskImagesData.topGuid h.data).trans rfl
  have hblock : r.blocksize = d.blocksize := (congrArg DiskImagesData.blocksize h.data).trans rfl
  unfold validateDiskDescriptor
  cases hv : d.vol with
  | some v => rw [hvol, hv, Option.isSome_some, if_pos rfl]
  | none =>
      obtain ⟨hne, hvalid, hlength, g, s, hg, hs, htemp⟩ := hd.valid hv
      have hcount : r.images.length = r.snapshots.length := by rw [himages, hsnapshots, hlength]
      have hadd : addTop r = r := if_neg (not_not.mpr hcount)
      have hdefault : defaultTop r = r := if_neg (by rw [htop, hg]; exact nofun)
      have hfound : r.snapshotByGuid g = some s := by
        rw [← hs, DiskImagesData.snapshotByGuid, DiskImagesData.snapshotByGuid, hsnapshots]
      have hhas : hasTop r = true := by
        unfold hasTop
        simp [htop, hg, hd.topGuid g hg, hfound, htemp]
      rw [hvol, hv, Option.isSome_none, if_neg Bool.false_ne_true, himages, if_neg hne, hblock,
        if_neg (not_not.mpr hvalid)]
      dsimp only
      rw [hadd, hdefault, hhas, himages, hsnapshots, hlength]
      simp

/-! ## The conversion -/

/-- What is stored is the object, with another name for its top. -/
theorem convertDiskDescriptor_cases {d e : Descriptor} (h : convertDiskDescriptor d = some e) :
    e = d ∨ ∃ top, d.vol = none ∧ d.topGuid = some top ∧
      d.findImageByGuid topdeltaUuid = none ∧ d.findSnapshotByGuid topdeltaUuid = none ∧
      e = { d with toDiskImagesData := d.changeGuid top topdeltaUuid, excl := d.excl } := by
  unfold convertDiskDescriptor at h
  split at h
  case isTrue => exact .inl (Option.some.inj h).symm
  case isFalse hvol =>
    split at h
    case h_1 => cases h
    case h_2 top htop =>
      split at h
      case isTrue => exact .inl (Option.some.inj h).symm
      case isFalse =>
        split at h
        case isTrue => cases h
        case isFalse hnone =>
          obtain ⟨himage, hsnapshot⟩ := not_or.mp hnone
          exact .inr ⟨top, Option.not_isSome_iff_eq_none.mp hvol, htop,
            Option.not_isSome_iff_eq_none.mp himage, Option.not_isSome_iff_eq_none.mp hsnapshot,
            (Option.some.inj h).symm⟩

theorem isValidGuid_rename {top g : Guid} (h : isValidGuid g) :
    isValidGuid (DiskImagesData.rename top topdeltaUuid g) := by
  unfold DiskImagesData.rename
  split
  · decide
  · exact h

theorem toXml_changeGuid (di : DiskImagesData) (guid newGuid : Guid) :
    (di.changeGuid guid newGuid).toXml = di.toXml.changeGuid guid newGuid := by
  simp [DiskImagesData.toXml, DiskImagesData.changeGuid, List.filter_map, Function.comp_def,
    DiskImagesData.renameImage, DiskImagesData.renameSnapshot]

/-- The renamed top is found, as no other entry has its new name. -/
theorem snapshotByGuid_changeGuid {di : DiskImagesData} {top : Guid} {s : SnapshotData}
    (hnone : ∀ s ∈ di.snapshots, ¬ guidEq s.guid topdeltaUuid)
    (hs : di.snapshotByGuid top = some s) :
    (di.changeGuid top topdeltaUuid).snapshotByGuid topdeltaUuid =
      some (DiskImagesData.renameSnapshot top topdeltaUuid s) := by
  have hsame : ∀ s ∈ di.snapshots,
      guidEq (DiskImagesData.rename top topdeltaUuid s.guid) topdeltaUuid = guidEq s.guid top := by
    intro s hs
    unfold DiskImagesData.rename
    split
    case isTrue heq => rw [heq, guidEq_refl]
    case isFalse hne =>
      rw [Bool.eq_false_of_not_eq_true hne, Bool.eq_false_of_not_eq_true (hnone s hs)]
  have hfind : di.snapshots.find? ((fun s => guidEq s.guid topdeltaUuid) ∘
      DiskImagesData.renameSnapshot top topdeltaUuid) = some s :=
    (List.find?_congr hsame).trans hs
  rw [DiskImagesData.snapshotByGuid, DiskImagesData.changeGuid, List.find?_map, hfind,
    Option.map_some]

/-- The conversion keeps what reading asks for. -/
theorem Readable.convert {d e : Descriptor} (h : Readable d)
    (he : convertDiskDescriptor d = some e) : Readable e := by
  rcases convertDiskDescriptor_cases he with rfl | ⟨top, hvol, htop, himage, hsnapshot, rfl⟩
  · exact h
  have hxml := toXml_changeGuid d.toDiskImagesData top topdeltaUuid
  have himages : (d.changeGuid top topdeltaUuid).toXml.images =
      d.toXml.images.map (DiskImagesData.renameImage top topdeltaUuid) :=
    congrArg DiskImagesData.images hxml
  have hsnapshots : (d.changeGuid top topdeltaUuid).toXml.snapshots =
      d.toXml.snapshots.map (DiskImagesData.renameSnapshot top topdeltaUuid) :=
    congrArg DiskImagesData.snapshots hxml
  have hnone : ∀ s ∈ d.toXml.snapshots, ¬ guidEq s.guid topdeltaUuid := by
    have hall := List.findIdx?_eq_none_iff.mp hsnapshot
    exact fun s hs => Bool.not_eq_true _ ▸ hall s (List.mem_filter.mp hs).1
  constructor
  case toInRange =>
    exact { h.toInRange with }
  case vol => exact h.vol
  case keyId => exact h.keyId
  case imageGuid =>
    rw [himages, List.forall_mem_map]
    exact fun i hi => isValidGuid_rename (h.imageGuid i hi)
  case imageFile =>
    rw [himages, List.forall_mem_map]
    exact fun i hi => h.imageFile i hi
  case shotGuid =>
    rw [hsnapshots, List.forall_mem_map]
    intro s hs
    obtain ⟨hguid, hparent⟩ := h.shotGuid s hs
    exact ⟨isValidGuid_rename hguid, isValidGuid_rename hparent⟩
  case topGuid =>
    intro g hg
    obtain ⟨t, ht, rfl⟩ := Option.map_eq_some_iff.mp hg
    exact isValidGuid_rename (h.topGuid t ht)
  case mode =>
    intro hraw hnil
    rw [himages, List.map_eq_nil_iff] at hnil
    exact h.mode hraw hnil
  case valid =>
    intro hv
    obtain ⟨hne, hblock, hlength, g, s, hg, hs, htemp⟩ := h.valid hv
    obtain rfl := Option.some.inj (htop.symm.trans hg)
    rw [himages, hsnapshots, List.length_map, List.length_map, List.map_eq_nil_iff.ne]
    refine ⟨hne, hblock, hlength, topdeltaUuid,
      DiskImagesData.renameSnapshot top topdeltaUuid s, ?_, ?_, htemp⟩
    · change d.topGuid.map (DiskImagesData.rename top topdeltaUuid) = some topdeltaUuid
      rw [htop, Option.map_some, DiskImagesData.rename, guidEq_refl, if_pos rfl]
    · change (d.changeGuid top topdeltaUuid).toXml.snapshotByGuid topdeltaUuid = _
      rw [hxml]
      exact snapshotByGuid_changeGuid hnone hs

/-- What is stored, and in memory after it, is what a new object reads. -/
theorem readDd_storeDiskdescriptor {dir : Path} (hdir : Normal dir) (habs : dir.head? = some '/')
    {d e : Descriptor} (h : Readable d) {skipConvert : Bool} {root : Node}
    (hstore : storeDiskdescriptor dir skipConvert d = some (e, root)) :
    ∃ r, readDd (dir ++ ['/']) root fresh = some r ∧ SameFields e r := by
  obtain ⟨e', he, hstore⟩ := Option.bind_eq_some_iff.mp hstore
  obtain ⟨root', hroot, hpair⟩ := Option.map_eq_some_iff.mp hstore
  obtain ⟨rfl, rfl⟩ := Prod.mk.inj hpair
  have hreadable : Readable e' := by
    split at he
    case isTrue => exact Option.some.inj he ▸ h
    case isFalse => exact h.convert he
  obtain ⟨p, hp, hfields⟩ := parseXml_toTree hdir habs hreadable hroot
  refine ⟨p.store (clear fresh), ?_, hfields⟩
  rw [readDd, hp, Option.bind_some, hfields.validate hreadable]

/-- One plain image that is not yet named as the top delta. -/
def onePlain (guid : Guid) (snapshots : List SnapshotData) : Descriptor where
  size := 2048
  blocksize := 2048
  raw := true
  images := [⟨guid, "/v/root.hds".toList, false⟩]
  snapshots := snapshots
  topGuid := some guid
  vol := none
  preallocated := false
  heads := 16
  cylinders := 2
  sectors := 64
  maxDeltaSize := 0
  keyId := none
  excl := fun _ => rfl

def someUuid : Guid := "{11111111-1111-1111-1111-111111111111}".toList

def otherUuid : Guid := "{22222222-2222-2222-2222-222222222222}".toList

theorem storable_root : Storable "/v/root.hds".toList :=
  ⟨⟨by decide, by decide⟩, by decide, by decide, by decide⟩

/-- A temporary snapshot on a raw base, and the top delta in another directory. -/
def threeImages : Descriptor :=
  { onePlain topdeltaUuid [⟨someUuid, noneUuid, false, false⟩, ⟨otherUuid, someUuid, true, false⟩,
      ⟨topdeltaUuid, otherUuid, false, false⟩] with
    images := [⟨someUuid, "/v/root.hds".toList, false⟩, ⟨otherUuid, "/v/root.hds.1".toList, false⟩,
      ⟨topdeltaUuid, "/snap/top".toList, false⟩] }

theorem threeImages_storable : ∀ i ∈ threeImages.images, Storable i.file :=
  List.forall_mem_cons.mpr ⟨storable_root, List.forall_mem_cons.mpr
    ⟨⟨⟨by decide, by decide⟩, by decide, by decide, by decide⟩, List.forall_mem_singleton.mpr
      ⟨⟨by decide, by decide⟩, by decide, by decide, by decide⟩⟩⟩

theorem readable_threeImages : Readable threeImages where
  size := by decide
  maxDeltaSize := by decide
  cylinders := by decide
  heads := by decide
  blocksize := by decide
  vol := nofun
  keyId := by decide
  imageGuid := by decide
  imageFile := threeImages_storable
  shotGuid := by decide
  topGuid := by
    intro g hg
    obtain rfl := Option.some.inj hg
    decide
  mode := by decide
  valid := fun _ => ⟨by decide, by decide, by decide, _, _, rfl, rfl, rfl⟩

theorem readDd_storeDiskdescriptor_three : ∃ e root r,
    storeDiskdescriptor "/v".toList false threeImages = some (e, root) ∧
      readDd "/v/".toList root fresh = some r ∧ SameFields e r := by
  have hstore : (storeDiskdescriptor "/v".toList false threeImages).isSome := by
    decide
  obtain ⟨⟨e, root⟩, hroot⟩ := Option.isSome_iff_exists.mp hstore
  have hdir : Normal "/v".toList := ⟨by decide, by decide⟩
  obtain ⟨r, hr, hfields⟩ := readDd_storeDiskdescriptor hdir (by decide) readable_threeImages hroot
  exact ⟨e, root, r, hroot, hr, hfields⟩

/-- An image without a snapshot comes back with one. -/
theorem readDd_storeDiskdescriptor_adds : isValidGuid topdeltaUuid ∧ Storable "/v/root.hds".toList ∧
    ∃ e root r, storeDiskdescriptor "/v".toList false (onePlain topdeltaUuid []) = some (e, root) ∧
      readDd "/v/".toList root fresh = some r ∧ e.snapshots = [] ∧
        r.snapshots = [⟨topdeltaUuid, noneUuid, false, false⟩] := by
  have hread : ((storeDiskdescriptor "/v".toList false (onePlain topdeltaUuid [])).bind fun p =>
      (readDd "/v/".toList p.2 fresh).map fun r => (p.1.snapshots, r.snapshots)) =
        some ([], [⟨topdeltaUuid, noneUuid, false, false⟩]) := by
    decide
  obtain ⟨⟨e, root⟩, hroot, hread⟩ := Option.bind_eq_some_iff.mp hread
  obtain ⟨r, hr, hpair⟩ := Option.map_eq_some_iff.mp hread
  obtain ⟨he, hsnapshots⟩ := Prod.mk.inj hpair
  exact ⟨by decide, storable_root, e, root, r, hroot, hr, he, hsnapshots⟩

end Ploop.Xml
