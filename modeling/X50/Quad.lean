/-
# `X50.Quad` — the identity of the device, across restarts

The four names a device has in the cloud are kept in `DevQuad.json`.  Each start reads
them, fills in what is empty, and hands them to the SDK; a device without a secret is
registered by the SDK, and the secret is saved.

    boot        `cloud_init`, `cloud_task` and `linkkit_init`; also what follows a power cut
    dynreg      the SDK has a secret for a device that has none (`save_device_secret`)
    dynregCut   the same, and the power fails while the file is written

The file is opened without `O_TRUNC`, so that what it held before stays behind a text that
is shorter, and it is read into a buffer that has no room for a NUL, so that the parser
runs on into the heap.  Neither matters: once a secret is saved, the device has the same
four names after every start, and is never registered again (`quad_persists`).
-/
import X50.Database
import X50.CJsonRound
import X50.Lib.Machine

namespace X50

open X50.Lib

/-! ## The functions -/

/-- The names of a device, in `cloud_dev_t` and in `iotx_linkkit_dev_meta_info_t`. -/
structure Quad where
  productKey : CStr
  productSecret : CStr
  deviceName : CStr
  deviceSecret : CStr
deriving DecidableEq, Repr

def Quad.zero : Quad := ⟨[], [], [], []⟩

/-- `char product_key[33]` and its three neighbours in `cloud_dev_t`. -/
def quadSize : Nat := 33

/-- `cloud_quad_parse_json`: the names as it leaves them.  Where it fails, it has written
nothing, and `cloud_init` only logs it. -/
def cloudQuadParseJson (strtod : Strtod) (str : CStr) (dev : Quad) : Option Quad :=
  match CJson.parse strtod str with
  | none => some dev
  | some root =>
      match root.getObjectItem (cstr "ProductKey"), root.getObjectItem (cstr "ProductSecret"),
          root.getObjectItem (cstr "DeviceName"), root.getObjectItem (cstr "DeviceSecret") with
      | some productKey, some productSecret, some deviceName, some deviceSecret => do
          let productKey ← strcpy quadSize productKey.valuestring
          let productSecret ← strcpy quadSize productSecret.valuestring
          let deviceName ← strcpy quadSize deviceName.valuestring
          let deviceSecret ← strcpy quadSize deviceSecret.valuestring
          pure ⟨productKey, productSecret, deviceName, deviceSecret⟩
      | _, _, _, _ => some dev

/-- `get_dev_profile`: the string it hands on, if any; the buffer is as long as the file,
and `heap` lies behind it. -/
def getDevProfile (file : Option (List UInt8)) (heap : List UInt8) : Option CStr :=
  match file with
  | none => none
  | some bytes => if bytes = [] then none else some (cstrOf (bytes ++ heap))

/-- `cloud_init`, of the names. -/
def cloudInit (strtod : Strtod) (file : Option (List UInt8)) (heap : List UInt8) : Option Quad :=
  match getDevProfile file heap with
  | none => some .zero
  | some str => cloudQuadParseJson strtod str .zero

/-- `cloud_task`, up to `linkkit_init`; `mac` is what `getNetworkMac` wrote, if it found an
address. -/
def cloudTask (mac : Option CStr) (dev : Quad) : Quad :=
  { productKey := if dev.productKey = [] then cstr "a1YTZpQDGwn" else dev.productKey
    productSecret := if dev.productSecret = [] then cstr "oE99dmyBcH5RAWE3" else dev.productSecret
    deviceName :=
      if dev.deviceName = [] then ((mac.map cstrOf).getD []).take (quadSize - 1)
      else dev.deviceName
    deviceSecret := dev.deviceSecret }

/-- The copies of `linkkit_init` into `master_meta_info`, whose fields have other sizes. -/
def linkkitInit (dev : Quad) : Option Quad := do
  let productKey ← strcpy 21 (some dev.productKey)
  let productSecret ← strcpy 65 (some dev.productSecret)
  let deviceName ← strcpy 33 (some dev.deviceName)
  let deviceSecret ← strcpy 65 (some dev.deviceSecret)
  pure ⟨productKey, productSecret, deviceName, deviceSecret⟩

/-- The object `save_device_secret` writes. -/
def quadRoot (q : Quad) : CJson :=
  .object [(cstr "ProductKey", .string q.productKey), (cstr "ProductSecret", .string q.productSecret),
    (cstr "DeviceName", .string q.deviceName), (cstr "DeviceSecret", .string q.deviceSecret)]

/-- `operateFile(1, …)`: `buf` is written over the front of the file. -/
def operateFile (file : Option (List UInt8)) (buf : List UInt8) : List UInt8 :=
  buf ++ (file.getD []).drop buf.length

/-- What `save_device_secret` then tells the user interface, in the order of the table of
`device_resp_get`. -/
def quadEvent (q : Quad) : CJson :=
  .object [(cstr "ProductKey", .string q.productKey), (cstr "DeviceName", .string q.deviceName),
    (cstr "ProductSecret", .string q.productSecret), (cstr "DeviceSecret", .string q.deviceSecret)]

/-! ## Starts, registrations and power cuts -/

/-- The file, the names in memory while the power is on, and what the user interface was
told. -/
structure QuadState where
  file : Option (List UInt8)
  dev : Option Quad
  told : List CJson

/-- A device that is switched off, with a file on it. -/
def QuadState.off (file : Option (List UInt8)) : QuadState := ⟨file, none, []⟩

inductive QuadAct where
  | boot (mac : Option CStr) (heap : List UInt8)
  | dynreg (deviceSecret : CStr)
  | dynregCut (deviceSecret : CStr) (written : Nat)

/-- The names behind the `strcpy` of `save_device_secret`.  The SDK registers a device that
is on and has no secret. -/
def QuadState.registers (s : QuadState) (deviceSecret : CStr) : Option Quad := do
  let dev ← s.dev
  if dev.deviceSecret = [] then
    let deviceSecret ← strcpy quadSize (some (cstrOf deviceSecret))
    pure { dev with deviceSecret := deviceSecret }
  else none

def QuadState.step (strtod : Strtod) (s : QuadState) : QuadAct → Option QuadState
  | .boot mac heap => do
      let dev ← cloudInit strtod s.file heap
      let _ ← linkkitInit (cloudTask mac dev)
      pure { s with dev := some (cloudTask mac dev) }
  | .dynreg deviceSecret => do
      let dev ← s.registers deviceSecret
      pure
        { file := some (operateFile s.file (quadRoot dev).printUnformatted)
          dev := some dev
          told := s.told ++ [quadEvent dev] }
  | .dynregCut deviceSecret written => do
      let dev ← s.registers deviceSecret
      pure
        { s with
          file := some (operateFile s.file ((quadRoot dev).printUnformatted.take written))
          dev := none }

def quadMachine (strtod : Strtod) : Machine QuadState QuadAct where
  step s a := s.step strtod a

/-! ## What is in memory -/

/-- Names that `cloud_task` has filled in and `linkkit_init` has copied. -/
structure Quad.Held (q : Quad) : Prop where
  noZero : (0 : UInt8) ∉ q.productKey ∧ (0 : UInt8) ∉ q.productSecret ∧
    (0 : UInt8) ∉ q.deviceName ∧ (0 : UInt8) ∉ q.deviceSecret
  fits : q.productKey.length < 21 ∧ q.productSecret.length < 33 ∧ q.deviceName.length < 33 ∧
    q.deviceSecret.length < 33
  filled : q.productKey ≠ [] ∧ q.productSecret ≠ []

section

variable {strtod : Strtod} {file : Option (List UInt8)} {heap : List UInt8} {q dev : Quad}

/-- What the file gives, if it gives all four names. -/
theorem cloudQuadParseJson_some {str : CStr} (h : cloudQuadParseJson strtod str dev = some q) :
    q = dev ∨ ∃ root, CJson.parse strtod str = some root ∧
      ∃ a b c d, root.getObjectItem (cstr "ProductKey") = some a ∧
        root.getObjectItem (cstr "ProductSecret") = some b ∧
        root.getObjectItem (cstr "DeviceName") = some c ∧
        root.getObjectItem (cstr "DeviceSecret") = some d ∧
        strcpy quadSize a.valuestring = some q.productKey ∧
        strcpy quadSize b.valuestring = some q.productSecret ∧
        strcpy quadSize c.valuestring = some q.deviceName ∧
        strcpy quadSize d.valuestring = some q.deviceSecret := by
  unfold cloudQuadParseJson at h
  split at h
  · exact .inl (Option.some.inj h).symm
  · rename_i root hroot
    split at h
    · rename_i a b c d ha hb hc hd
      simp only [Option.bind_eq_bind, Option.bind_eq_some_iff, Option.pure_def] at h
      obtain ⟨key, hkey, secret, hsecret, name, hname, dsecret, hdsecret, heq⟩ := h
      obtain rfl := Option.some.inj heq
      exact .inr ⟨root, hroot, a, b, c, d, ha, hb, hc, hd, hkey, hsecret, hname, hdsecret⟩
    · exact .inl (Option.some.inj h).symm

/-- A name that was copied out of a parsed file. -/
theorem strcpy_noZero {size : Nat} {root item : CJson} {name s : CStr}
    (h : CJson.Sound CJson.nestingLimit root) (hitem : root.getObjectItem name = some item)
    (hs : strcpy size item.valuestring = some s) : (0 : UInt8) ∉ s ∧ s.length < size := by
  obtain ⟨hval, hlen⟩ := strcpy_eq_some.mp hs
  have hsound : CJson.Sound (999 + 1) root := h
  exact ⟨(hsound.getObjectItem hitem).valuestring hval, hlen⟩

/-- Whatever the file and the heap hold, the names in memory are strings that fit. -/
theorem cloudInit_fits (h : cloudInit strtod file heap = some dev) :
    ((0 : UInt8) ∉ dev.productKey ∧ dev.productKey.length < 33) ∧
      ((0 : UInt8) ∉ dev.productSecret ∧ dev.productSecret.length < 33) ∧
      ((0 : UInt8) ∉ dev.deviceName ∧ dev.deviceName.length < 33) ∧
      (0 : UInt8) ∉ dev.deviceSecret ∧ dev.deviceSecret.length < 33 := by
  have hzero : (0 : UInt8) ∉ ([] : CStr) ∧ ([] : CStr).length < 33 := by decide
  unfold cloudInit at h
  split at h
  · obtain rfl := Option.some.inj h
    exact ⟨hzero, hzero, hzero, hzero⟩
  · rcases cloudQuadParseJson_some h with rfl | ⟨root, hroot, a, b, c, d, ha, hb, hc, hd, hrest⟩
    · exact ⟨hzero, hzero, hzero, hzero⟩
    · obtain ⟨hkey, hsecret, hname, hdsecret⟩ := hrest
      have hsound := CJson.parse_sound hroot
      exact ⟨strcpy_noZero hsound ha hkey, strcpy_noZero hsound hb hsecret,
        strcpy_noZero hsound hc hname, strcpy_noZero hsound hd hdsecret⟩

/-- After a start the names are filled in and copied. -/
theorem held_of_boot {mac : Option CStr} {copied : Quad}
    (h : cloudInit strtod file heap = some dev)
    (hcopy : linkkitInit (cloudTask mac dev) = some copied) : (cloudTask mac dev).Held := by
  obtain ⟨hkey, hsecret, hname, hdsecret⟩ := cloudInit_fits h
  simp only [linkkitInit, Option.bind_eq_bind, Option.bind_eq_some_iff] at hcopy
  obtain ⟨key, hkeyCopy, -⟩ := hcopy
  have hkeyFits := (strcpy_eq_some.mp hkeyCopy)
  have hkeyLen : (cloudTask mac dev).productKey.length < 21 := by
    obtain ⟨heq, hlen⟩ := hkeyFits
    rw [Option.some.inj heq]
    exact hlen
  have hmac : (0 : UInt8) ∉ ((mac.map cstrOf).getD []).take (quadSize - 1) ∧
      (((mac.map cstrOf).getD []).take (quadSize - 1)).length < 33 := by
    refine ⟨fun hz => ?_, ?_⟩
    · cases mac with
      | none => simp at hz
      | some m => exact CJson.zero_not_mem_cstrOf m (List.mem_of_mem_take hz)
    · rw [List.length_take]
      exact Nat.lt_of_le_of_lt (Nat.min_le_left _ _) (by decide)
  have hdefaults : (0 : UInt8) ∉ cstr "a1YTZpQDGwn" ∧ (0 : UInt8) ∉ cstr "oE99dmyBcH5RAWE3" ∧
      (cstr "oE99dmyBcH5RAWE3").length < 33 ∧ cstr "a1YTZpQDGwn" ≠ [] ∧
      cstr "oE99dmyBcH5RAWE3" ≠ [] := by decide
  refine ⟨⟨?_, ?_, ?_, hdsecret.1⟩, ⟨hkeyLen, ?_, ?_, hdsecret.2⟩, ?_, ?_⟩
  · dsimp only [cloudTask]
    split
    · exact hdefaults.1
    · exact hkey.1
  · dsimp only [cloudTask]
    split
    · exact hdefaults.2.1
    · exact hsecret.1
  · dsimp only [cloudTask]
    split
    · exact hmac.1
    · exact hname.1
  · dsimp only [cloudTask]
    split
    · exact hdefaults.2.2.1
    · exact hsecret.2
  · dsimp only [cloudTask]
    split
    · exact hmac.2
    · exact hname.2
  · dsimp only [cloudTask]
    split
    · exact hdefaults.2.2.2.1
    · assumption
  · dsimp only [cloudTask]
    split
    · exact hdefaults.2.2.2.2
    · assumption

/-- Names that are held are copied as they are. -/
theorem Quad.Held.linkkitInit (h : q.Held) : X50.linkkitInit q = some q := by
  obtain ⟨hkey, hsecret, hname, hdsecret⟩ := h.fits
  have hcopy : ∀ {size : Nat} {s : CStr}, s.length < size → strcpy size (some s) = some s :=
    fun hlen => strcpy_eq_some.mpr ⟨rfl, hlen⟩
  simp only [X50.linkkitInit, hcopy hkey, hcopy (show q.productSecret.length < 65 by omega),
    hcopy hname, hcopy (show q.deviceSecret.length < 65 by omega), Option.bind_eq_bind,
    Option.bind_some, Option.pure_def]

/-! ## What is on the file -/

/-- The file begins with the text of these names. -/
def QuadStored (q : Quad) (file : Option (List UInt8)) : Prop :=
  ∃ rest, file = some ((quadRoot q).printUnformatted ++ rest)

theorem Quad.Held.sound (h : q.Held) : CJson.Sound CJson.nestingLimit (quadRoot q) := by
  have hnames : (0 : UInt8) ∉ cstr "ProductKey" ∧ (0 : UInt8) ∉ cstr "ProductSecret" ∧
      (0 : UInt8) ∉ cstr "DeviceName" ∧ (0 : UInt8) ∉ cstr "DeviceSecret" := by decide
  obtain ⟨hkey, hsecret, hname, hdsecret⟩ := h.noZero
  show CJson.Sound (999 + 1) (quadRoot q)
  refine .object ?_ ?_
  · intro m hm
    simp only [List.mem_cons, List.not_mem_nil, or_false] at hm
    rcases hm with rfl | rfl | rfl | rfl
    · exact hnames.1
    · exact hnames.2.1
    · exact hnames.2.2.1
    · exact hnames.2.2.2
  · intro m hm
    simp only [List.mem_cons, List.not_mem_nil, or_false] at hm
    rcases hm with rfl | rfl | rfl | rfl
    · exact .string _ hkey
    · exact .string _ hsecret
    · exact .string _ hname
    · exact .string _ hdsecret

/-- **Names that are stored are read back**, whatever else the file and the heap hold. -/
theorem cloudInit_stored (hint : CJson.ReadsInts strtod) (h : q.Held) (hfile : QuadStored q file) :
    cloudInit strtod file heap = some q := by
  obtain ⟨rest, rfl⟩ := hfile
  obtain ⟨c, l, hc, -⟩ := CJson.printUnformatted_head (quadRoot q)
  have hne : ¬ (quadRoot q).printUnformatted ++ rest = [] := by simp [hc]
  have hstr : cstrOf ((quadRoot q).printUnformatted ++ rest ++ heap) =
      (quadRoot q).printUnformatted ++ cstrOf (rest ++ heap) := by
    have hzero := CJson.zero_not_mem_print h.sound
    rw [cstrOf, List.append_assoc, List.takeWhile_append_of_pos]
    · rfl
    · intro d hd
      have hd0 : d ≠ 0 := fun h0 => hzero (h0 ▸ hd)
      simpa using hd0
  have hparse : CJson.parse strtod
      ((quadRoot q).printUnformatted ++ cstrOf (rest ++ heap)) = some (quadRoot q) := by
    refine CJson.parse_print hint h.sound ?_
    rintro ⟨n, hn⟩
    cases hn
  have hitems : (quadRoot q).getObjectItem (cstr "ProductKey") = some (.string q.productKey) ∧
      (quadRoot q).getObjectItem (cstr "ProductSecret") = some (.string q.productSecret) ∧
      (quadRoot q).getObjectItem (cstr "DeviceName") = some (.string q.deviceName) ∧
      (quadRoot q).getObjectItem (cstr "DeviceSecret") = some (.string q.deviceSecret) :=
    ⟨rfl, rfl, rfl, rfl⟩
  obtain ⟨hkey, hsecret, hname, hdsecret⟩ := h.fits
  have hcopy : ∀ {s : CStr}, s.length < quadSize → strcpy quadSize (some s) = some s :=
    fun hlen => strcpy_eq_some.mpr ⟨rfl, hlen⟩
  simp only [cloudInit, getDevProfile, if_neg hne, hstr, cloudQuadParseJson, hparse, hitems,
    CJson.valuestring, hcopy (show q.productKey.length < quadSize from Nat.lt_trans hkey (by decide)),
    hcopy hsecret, hcopy hname, hcopy hdsecret, Option.bind_eq_bind, Option.bind_some,
    Option.pure_def]

end

/-! ## Runs -/

section

variable {strtod : Strtod} {s s' : QuadState} {q dev : Quad} {secret : CStr}

/-- The names in memory are always such as a start leaves. -/
def QuadInv (s : QuadState) : Prop := ∀ dev ∈ s.dev, dev.Held

/-- What the SDK registers differs from what was there in the secret only. -/
theorem registers_some (h : s.registers secret = some q) :
    ∃ dev, s.dev = some dev ∧ dev.deviceSecret = [] ∧
      q = { dev with deviceSecret := cstrOf secret } ∧ (cstrOf secret).length < 33 := by
  obtain ⟨dev, hdev, h⟩ := Option.bind_eq_some_iff.mp h
  split at h
  · rename_i hempty
    obtain ⟨copied, hcopied, heq⟩ := Option.bind_eq_some_iff.mp h
    obtain ⟨hsame, hlen⟩ := strcpy_eq_some.mp hcopied
    obtain rfl := Option.some.inj hsame
    exact ⟨dev, hdev, hempty, (Option.some.inj heq).symm, hlen⟩
  · cases h

theorem registers_held (hs : QuadInv s) (h : s.registers secret = some q) : q.Held := by
  obtain ⟨dev, hdev, -, rfl, hlen⟩ := registers_some h
  obtain ⟨hzero, hfits, hfilled⟩ := hs dev hdev
  exact ⟨⟨hzero.1, hzero.2.1, hzero.2.2.1, CJson.zero_not_mem_cstrOf secret⟩,
    ⟨hfits.1, hfits.2.1, hfits.2.2.1, hlen⟩, hfilled⟩

theorem quadInv_step {a : QuadAct} (hs : QuadInv s) (h : (quadMachine strtod).step s a = some s') :
    QuadInv s' := by
  cases a with
  | boot mac heap =>
      obtain ⟨dev, hdev, h⟩ := Option.bind_eq_some_iff.mp h
      obtain ⟨copied, hcopied, heq⟩ := Option.bind_eq_some_iff.mp h
      obtain rfl := Option.some.inj heq
      intro d hd
      obtain rfl := Option.some.inj hd
      exact held_of_boot hdev hcopied
  | dynreg secret =>
      obtain ⟨q, hq, heq⟩ := Option.bind_eq_some_iff.mp h
      obtain rfl := Option.some.inj heq
      intro d hd
      obtain rfl := Option.some.inj hd
      exact registers_held hs hq
  | dynregCut secret written =>
      obtain ⟨q, hq, heq⟩ := Option.bind_eq_some_iff.mp h
      obtain rfl := Option.some.inj heq
      intro d hd
      cases hd

/-- The device is on under these names, which are complete and on the file. -/
structure QuadState.Settled (s : QuadState) (q : Quad) : Prop where
  dev : s.dev = some q
  held : q.Held
  file : QuadStored q s.file
  name : q.deviceName ≠ []
  secret : q.deviceSecret ≠ []

/-- A start finds what is settled. -/
theorem QuadState.Settled.boot (hint : CJson.ReadsInts strtod) (h : s.Settled q)
    (mac : Option CStr) (heap : List UInt8) :
    (quadMachine strtod).step s (.boot mac heap) = some s := by
  have hfill : cloudTask mac q = q := by
    simp only [cloudTask, if_neg h.held.filled.1, if_neg h.held.filled.2, if_neg h.name]
  have hstate : { s with dev := some q } = s := by rw [← h.dev]
  show (do
    let dev ← cloudInit strtod s.file heap
    let _ ← linkkitInit (cloudTask mac dev)
    pure { s with dev := some (cloudTask mac dev) }) = some s
  rw [cloudInit_stored hint h.held h.file]
  simp only [Option.bind_eq_bind, Option.bind_some, hfill, h.held.linkkitInit, Option.pure_def,
    hstate]

/-- Nothing else can happen then. -/
theorem QuadState.Settled.only_boot (h : s.Settled q) {a : QuadAct}
    (hstep : (quadMachine strtod).step s a = some s') : ∃ mac heap, a = .boot mac heap := by
  have hno : ∀ secret, s.registers secret = none := by
    intro secret
    cases hr : s.registers secret with
    | none => rfl
    | some dev' =>
        obtain ⟨dev, hdev, hempty, -⟩ := registers_some hr
        obtain rfl := Option.some.inj (h.dev.symm.trans hdev)
        exact absurd hempty h.secret
  cases a with
  | boot mac heap => exact ⟨mac, heap, rfl⟩
  | dynreg secret =>
      obtain ⟨dev', hdev', -⟩ := Option.bind_eq_some_iff.mp hstep
      rw [hno] at hdev'
      cases hdev'
  | dynregCut secret written =>
      obtain ⟨dev', hdev', -⟩ := Option.bind_eq_some_iff.mp hstep
      rw [hno] at hdev'
      cases hdev'

/-- A settled state is kept by every run, and every run is one of starts. -/
theorem QuadState.Settled.run (hint : CJson.ReadsInts strtod) (h : s.Settled q)
    {later : List QuadAct} (hrun : (quadMachine strtod).run s later = some s') :
    s' = s ∧ ∀ a ∈ later, ∃ mac heap, a = .boot mac heap := by
  induction later with
  | nil =>
      obtain rfl := Option.some.inj hrun
      exact ⟨rfl, fun a ha => absurd ha List.not_mem_nil⟩
  | cons a later ih =>
      obtain ⟨t, hstep, hrun⟩ := Machine.run_cons.mp hrun
      obtain ⟨mac, heap, rfl⟩ := h.only_boot hstep
      obtain rfl := Option.some.inj ((h.boot hint mac heap).symm.trans hstep)
      obtain ⟨hsame, hboots⟩ := ih hrun
      refine ⟨hsame, fun a ha => ?_⟩
      rcases List.mem_cons.mp ha with rfl | ha
      · exact ⟨mac, heap, rfl⟩
      · exact hboots a ha

/-- Every run of starts goes through. -/
theorem QuadState.Settled.boots (hint : CJson.ReadsInts strtod) (h : s.Settled q)
    {later : List QuadAct} (hboots : ∀ a ∈ later, ∃ mac heap, a = .boot mac heap) :
    (quadMachine strtod).run s later = some s := by
  induction later with
  | nil => rfl
  | cons a later ih =>
      obtain ⟨mac, heap, rfl⟩ := hboots a List.mem_cons_self
      exact Machine.run_cons.mpr
        ⟨s, h.boot hint mac heap, ih fun b hb => hboots b (List.mem_cons_of_mem _ hb)⟩

end

/-- **The identity persists.**  Take any run from a device that is switched off, with
whatever it has on its file, through starts, registrations and power cuts, also in the
middle of a write; then let a device that has a name be registered with a secret.  From
there on the state never changes again: every later start leaves the four names that were
registered, no registration is possible any more, and no start fails. -/
theorem quad_persists {strtod : Strtod} (hint : CJson.ReadsInts strtod)
    {file : Option (List UInt8)} {before : List QuadAct} {s s₁ : QuadState} {dev : Quad}
    {secret : CStr} (hbefore : (quadMachine strtod).run (.off file) before = some s)
    (hdev : s.dev = some dev) (hname : dev.deviceName ≠ []) (hsecret : cstrOf secret ≠ [])
    (hreg : (quadMachine strtod).step s (.dynreg secret) = some s₁) :
    s₁.dev = some { dev with deviceSecret := cstrOf secret } ∧
      (∀ later s', (quadMachine strtod).run s₁ later = some s' →
        s' = s₁ ∧ ∀ a ∈ later, ∃ mac heap, a = .boot mac heap) ∧
      ∀ later, (∀ a ∈ later, ∃ mac heap, a = QuadAct.boot mac heap) →
        (quadMachine strtod).run s₁ later = some s₁ := by
  have hinv : QuadInv s :=
    Machine.run_invariant (V := fun _ => True) (P := QuadInv)
      (fun _ _ _ _ hs hstep => quadInv_step hs hstep) (fun _ _ => trivial)
      (fun _ hd => absurd hd (Option.not_mem_none _)) hbefore
  obtain ⟨q, hq, heq⟩ := Option.bind_eq_some_iff.mp hreg
  have hheld := registers_held hinv hq
  obtain ⟨dev', hdev', -, rfl, -⟩ := registers_some hq
  obtain rfl := Option.some.inj (hdev.symm.trans hdev')
  obtain rfl := Option.some.inj heq
  have hsettled : QuadState.Settled
      { file := some (operateFile s.file
          (quadRoot { dev with deviceSecret := cstrOf secret }).printUnformatted)
        dev := some { dev with deviceSecret := cstrOf secret }
        told := s.told ++ [quadEvent { dev with deviceSecret := cstrOf secret }] }
      { dev with deviceSecret := cstrOf secret } :=
    ⟨rfl, hheld, ⟨_, rfl⟩, hname, hsecret⟩
  exact ⟨rfl, fun later s' hrun => hsettled.run hint hrun,
    fun later hboots => hsettled.boots hint hboots⟩

/-- The file the device is delivered with, which says more than the text that replaces it. -/
def deliveredQuad : List UInt8 :=
  cstr "\x7b \"ProductKey\" : \"a1YTZpQDGwn\", \"ProductSecret\" : \"oE99dmyBcH5RAWE3\"," ++
    cstr " \"DeviceName\" : \"\", \"DeviceSecret\" : \"\", \"Remark\" : \"\\u6d4b\\u8bd5\" \x7d"

/-- It is started, cut while its secret is written, started and registered again. -/
def quadBefore : List QuadAct :=
  [.boot (some (cstr "48e1e9d1c0ff")) [7, 0], .dynregCut (cstr "s3cr3t") 3,
    .boot (some (cstr "48e1e9d1c0ff")) [0]]

/-- Its names before it is registered. -/
def unregisteredQuad : Quad :=
  ⟨cstr "a1YTZpQDGwn", cstr "oE99dmyBcH5RAWE3", cstr "48e1e9d1c0ff", []⟩

theorem quad_persists_delivered :
    ∃ s s₁ : QuadState,
      (quadMachine CJson.decimalStrtod).run (.off (some deliveredQuad)) quadBefore = some s ∧
      s₁.dev = some { unregisteredQuad with deviceSecret := cstrOf (cstr "secret") } ∧
      (∀ later s', (quadMachine CJson.decimalStrtod).run s₁ later = some s' →
        s' = s₁ ∧ ∀ a ∈ later, ∃ mac heap, a = .boot mac heap) ∧
      ∀ later, (∀ a ∈ later, ∃ mac heap, a = QuadAct.boot mac heap) →
        (quadMachine CJson.decimalStrtod).run s₁ later = some s₁ := by
  have hrun : ((quadMachine CJson.decimalStrtod).run (.off (some deliveredQuad)) quadBefore).map
      QuadState.dev = some (some unregisteredQuad) := by decide +kernel
  obtain ⟨s, hs, hdev⟩ := Option.map_eq_some_iff.mp hrun
  have hcopy : strcpy quadSize (some (cstrOf (cstr "secret"))) = some (cstrOf (cstr "secret")) := by
    decide
  have hregisters : s.registers (cstr "secret") =
      some { unregisteredQuad with deviceSecret := cstrOf (cstr "secret") } := by
    simp [QuadState.registers, hdev, unregisteredQuad, hcopy]
  have hreg : ((quadMachine CJson.decimalStrtod).step s (.dynreg (cstr "secret"))).isSome := by
    simp [quadMachine, QuadState.step, hregisters]
  obtain ⟨s₁, hs₁⟩ := Option.isSome_iff_exists.mp hreg
  exact ⟨s, s₁, hs, quad_persists CJson.decimalStrtod_reads hs hdev (by decide) (by decide) hs₁⟩

end X50
