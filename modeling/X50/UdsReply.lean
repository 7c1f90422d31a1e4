/-
# `X50.UdsReply` — what a GET and a GETALL are answered with

`uds_json_parse` has a GET and a GETALL answered by five modules, each from a table of its
own.  A GET asks each of them for the names it has in its Data; a GETALL asks for all of
them, and has the database answer in a message of its own, which is sent first.

Neither is a plain reading of the state: reporting `CookbookID` may look a recipe up, put
its name into `CookbookName` and record it in the history, and a string that fills its
buffer is cut when it is reported.  `get_restricts_getall`: where no recipe is looked up,
a GET is answered with exactly those members of the answer to GETALL that it asks for.
-/
import X50.CloudEcho
import X50.CloudWrites
import X50.Quad

namespace X50

open X50.Lib

/-! ## The tables -/

/-- What the callbacks of the tables read. -/
structure Readings where
  wifiRunningState : Int
  wifiScanR : CStr
  /-- `RK_WIFI_INFO_Connection_s`, zeroed where there is none -/
  ssid : CStr
  bssid : CStr
  ipAddress : CStr
  macAddress : CStr
  otaState : Int
  newVersion : CStr
  deviceCategory : CStr
  deviceModel : CStr
  updateLog : CStr
  afterSalesPhone : CStr
  quad : Quad
  tokenState : Int

/-- `set_attr_t`; `cb` is the callback with no argument, which is how a report calls it. -/
structure SetAttr where
  cloudKey : CStr
  funType : LinkFunType
  cb : Readings → Option CJson

def wifiSetAttr : List SetAttr :=
  [⟨cstr "WifiState", .attrReport, fun s => some (.number s.wifiRunningState)⟩,
    ⟨cstr "WifiEnable", .attrCtrl, fun _ => none⟩,
    ⟨cstr "WifiScan", .attrCtrl, fun _ => none⟩,
    ⟨cstr "WifiScanR", .attrReport, fun s => some (.string s.wifiScanR)⟩,
    ⟨cstr "WifiConnect", .attrCtrl, fun _ => none⟩,
    ⟨cstr "WifiDisconnect", .attrCtrl, fun _ => none⟩,
    ⟨cstr "WifiCurConnected", .attrReport, fun s => some (.object
      [(cstr "ssid", .string s.ssid), (cstr "bssid", .string s.bssid),
        (cstr "ip_address", .string s.ipAddress), (cstr "mac_address", .string s.macAddress)])⟩]

def otaSetAttr : List SetAttr :=
  [⟨cstr "OTAState", .attrReport, fun s => some (.number s.otaState)⟩,
    ⟨cstr "OTARquest", .attrCtrl, fun _ => none⟩,
    ⟨cstr "OTAProgress", .attrReport, fun _ => none⟩,
    ⟨cstr "OTANewVersion", .attrReport, fun s => some (.string s.newVersion)⟩]

/-- The text behind the QR codes; a key and a name of 32 bytes leave room in its buffer. -/
def downloadUrl : CStr := cstr "http://club.marssenger.com/hxr/download.html?pk="

def deviceSetAttr : List SetAttr :=
  [⟨cstr "ProductCategory", .attrReport, fun s => some (.string s.deviceCategory)⟩,
    ⟨cstr "ProductModel", .attrReport, fun s => some (.string s.deviceModel)⟩,
    ⟨cstr "ProductKey", .attrReport, fun s => some (.string s.quad.productKey)⟩,
    ⟨cstr "DeviceName", .attrReport, fun s => some (.string s.quad.deviceName)⟩,
    ⟨cstr "ProductSecret", .attrReport, fun s => some (.string s.quad.productSecret)⟩,
    ⟨cstr "DeviceSecret", .attrReport, fun s => some (.string s.quad.deviceSecret)⟩,
    ⟨cstr "QrCode", .attrReport, fun s => some (.string
      (downloadUrl ++ s.quad.productKey ++ cstr "&dn=" ++ s.quad.deviceName))⟩,
    ⟨cstr "UpdateLog", .attrReport, fun s => some (.string s.updateLog)⟩,
    ⟨cstr "AfterSalesPhone", .attrReport, fun s => some (.string s.afterSalesPhone)⟩,
    ⟨cstr "AfterSalesQrCode", .attrReport, fun s => some (.string
      (downloadUrl ++ s.quad.productKey))⟩,
    ⟨cstr "Reset", .attrCtrl, fun _ => none⟩,
    ⟨cstr "Alarm", .attrCtrl, fun _ => none⟩,
    ⟨cstr "BindTokenState", .attrReport, fun s => some (.number s.tokenState)⟩]

/-! ## The functions -/

/-- `set_attr_report_uds`. -/
def setAttrReportUds (s : Readings) (root : Members) (attr : SetAttr) : Members :=
  if attr.funType = .attrReportCtrl ∨ attr.funType = .attrReport then
    match attr.cb s with
    | none => root
    | some item => root ++ [(attr.cloudKey, item)]
  else root

/-- `wifi_resp_get`, `ota_resp_get` and `device_resp_get`, of the table of each. -/
def tableRespGet (attr : List SetAttr) (root : CJson) (s : Readings) (resp : Members) : Members :=
  attr.foldl (fun resp a => if root.hasObjectItem a.cloudKey then setAttrReportUds s resp a else resp)
    resp

/-- `wifi_resp_getall`, `ota_resp_getall` and `device_resp_getall`. -/
def tableRespGetall (attr : List SetAttr) (s : Readings) (resp : Members) : Members :=
  attr.foldl (setAttrReportUds s) resp

/-- The GET branch of `uds_json_parse`: the state, and the members of its answer. -/
def udsGet (root : CJson) (s : Readings) (b : Board) : Option (Board × Members) := do
  let resp := tableRespGet wifiSetAttr root s []
  let (b, resp) ← cloudRespGet root b resp
  let resp := tableRespGet otaSetAttr root s resp
  let resp := tableRespGet deviceSetAttr root s resp
  pure (b, resp ++ databaseRespGet root b.db)

/-- The GETALL branch: the state, and the members of its two answers, in the order in which
they are sent. -/
def udsGetall (s : Readings) (b : Board) : Option (Board × Members × Members) := do
  let resp := tableRespGetall wifiSetAttr s []
  let (b, resp) ← cloudRespGetall b resp
  let resp := tableRespGetall otaSetAttr s resp
  let resp := tableRespGetall deviceSetAttr s resp
  pure (b, databaseReports b.db, resp)

/-! ## The tables of the modules -/

section

variable {root : CJson} {s : Readings}

/-- The member of an entry. -/
def SetAttr.member (a : SetAttr) (s : Readings) : Members :=
  if a.funType = .attrReportCtrl ∨ a.funType = .attrReport then
    ((a.cb s).map fun item => (a.cloudKey, item)).toList
  else []

theorem setAttrReportUds_eq (resp : Members) (a : SetAttr) :
    setAttrReportUds s resp a = resp ++ a.member s := by
  rw [setAttrReportUds, SetAttr.member]
  split
  · cases a.cb s <;> simp
  · simp

theorem tableRespGetall_eq (attr : List SetAttr) (resp : Members) :
    tableRespGetall attr s resp = resp ++ attr.flatMap fun a => a.member s := by
  induction attr generalizing resp with
  | nil => simp [tableRespGetall]
  | cons a attr ih =>
      have hcons : tableRespGetall (a :: attr) s resp =
          tableRespGetall attr s (setAttrReportUds s resp a) := rfl
      rw [hcons, ih, setAttrReportUds_eq, List.flatMap_cons, List.append_assoc]

/-- The members asked for. -/
def asked (root : CJson) (members : Members) : Members :=
  members.filter fun m => root.hasObjectItem m.1

theorem asked_append (l l' : Members) : asked root (l ++ l') = asked root l ++ asked root l' :=
  List.filter_append l l'

/-- Members of one name are asked for together. -/
theorem asked_of_key (root : CJson) {l : Members} {key : CStr} (h : ∀ m ∈ l, m.1 = key) :
    asked root l = if root.hasObjectItem key then l else [] := by
  split
  · rename_i hkey
    exact List.filter_eq_self.mpr fun m hm => by rw [h m hm, hkey]
  · rename_i hkey
    exact List.filter_eq_nil_iff.mpr fun m hm => by rw [h m hm]; exact hkey

theorem SetAttr.key_member (a : SetAttr) : ∀ m ∈ a.member s, m.1 = a.cloudKey := by
  intro m hm
  rw [SetAttr.member] at hm
  split at hm
  · rw [Option.mem_toList] at hm
    obtain ⟨item, -, rfl⟩ := Option.map_eq_some_iff.mp hm
    rfl
  · cases hm

theorem tableRespGet_eq (attr : List SetAttr) (resp : Members) :
    tableRespGet attr root s resp = resp ++ asked root (attr.flatMap fun a => a.member s) := by
  induction attr generalizing resp with
  | nil => simp [tableRespGet, asked]
  | cons a attr ih =>
      have hcons : tableRespGet (a :: attr) root s resp = tableRespGet attr root s
          (if root.hasObjectItem a.cloudKey then setAttrReportUds s resp a else resp) := rfl
      rw [hcons, ih, List.flatMap_cons, asked_append, asked_of_key root a.key_member]
      split
      · rw [setAttrReportUds_eq, List.append_assoc]
      · rw [List.nil_append]

end

/-! ## The attributes -/

/-- No report looks a recipe up and finds one. -/
def LooksNothingUp (b : Board) : Prop := ∀ j, ¬ LooksUp b.db.recipe b.dev.attr j

/-- What reports have left of `b₀`, where the attributes of `l` are still to come. -/
structure Untouched (b₀ : Board) (l : List Nat) (b : Board) : Prop where
  db : b.db = b₀.db
  softwareVer : b.dev.softwareVer = b₀.dev.softwareVer
  remind : b.dev.remind = b₀.dev.remind
  mac : b.mac = b₀.mac
  heap : b.heap = b₀.heap
  kept : Kept b₀.dev.attr b.dev.attr
  nameByte : nameByte b.dev.attr = nameByte b₀.dev.attr
  get : ∀ k ∈ l, b.dev.attr[k]? = b₀.dev.attr[k]?

/-- The members of attribute `j`. -/
def shown (b : Board) (j : Nat) : Option Members := (getAttrReportValue j b []).map (·.2)

section

variable {b₀ b : Board} {j : Nat} {l : List Nat} {a : CloudAttr}

theorem Untouched.refl (b : Board) (l : List Nat) : Untouched b l b :=
  ⟨rfl, rfl, rfl, rfl, rfl, .refl _, rfl, fun _ _ => rfl⟩

theorem Untouched.quiet (h : Untouched b₀ l b) (h₀ : LooksNothingUp b₀) : LooksNothingUp b := by
  intro j hj
  rw [h.db] at hj
  exact h₀ j ((looksUp_congr h.kept h.nameByte).mp hj)

theorem reportCookbookID_of_not_finds {val : Int} (h : ¬ Finds b.db.recipe b.dev.attr val) :
    reportCookbookID val b = some b := by
  have hsome : ∃ b', reportCookbookID val b = some b' := by
    rw [reportCookbookID]
    split
    · rename_i hpos
      split
      · exact ⟨_, rfl⟩
      · rename_i q hq
        obtain ⟨c, hc, -⟩ := getAttrPtr_some hq
        simp only [hc, Option.bind_eq_bind, Option.bind_some]
        split
        · rename_i hz
          have hname : X50.nameByte b.dev.attr = some 0 :=
            (nameByte_of_nameAt hq hc).trans ((cstrOf_length_eq_zero hz.1).mp hz.2)
          have hrows : selectSeqidFromTable val b.db.recipe.toTable = [] := by
            by_contra hr
            exact h ⟨hpos, hname, hr⟩
          rw [selectForCookbookID_nil hrows]
          exact ⟨_, rfl⟩
        · exact ⟨_, rfl⟩
    · exact ⟨_, rfl⟩
  obtain ⟨b', hb'⟩ := hsome
  rw [hb', reportCookbookID_quiet h hb']

/-- The item of an attribute does not depend on what the reports of others have left. -/
theorem attrItem_untouched (h : Untouched b₀ l b) (h₀ : LooksNothingUp b₀)
    (ha : b.dev.attr[j]? = some a)
    (ha₀ : b₀.dev.attr[j]? = some a) (hr : a.isReported = true) :
    (attrItem j a b).map (·.2) = (attrItem j a b₀).map (·.2) := by
  have hfinds : a.cloudValueType = .num → a.cloudKey = cstr "CookbookID" →
      reportCookbookID (cloudVal a.bytes) b = some b ∧
        reportCookbookID (cloudVal a.bytes) b₀ = some b₀ := by
    intro ht hkey
    refine ⟨reportCookbookID_of_not_finds ?_, reportCookbookID_of_not_finds ?_⟩
    · rw [← looksUp_iff_finds ha hr ht hkey]
      exact h.quiet h₀ j
    · rw [← looksUp_iff_finds ha₀ hr ht hkey]
      exact h₀ j
  rw [attrItem, attrItem]
  split
  · rw [structItem, structItem, h.remind, Option.map_map, Option.map_map]
    rfl
  · split
    · rfl
    · cases ht : a.cloudValueType with
      | struct => rfl
      | stringNum => rfl
      | num =>
          dsimp only
          split
          · rename_i hkey
            obtain ⟨hb, hb₀⟩ := hfinds ht hkey
            rw [hb, hb₀]
            rfl
          · rfl
      | string =>
          simp only [stringItem, h.heap, h.softwareVer, h.mac]
          split
          · rfl
          · split
            · rfl
            · split
              · cases a.value.head? <;> rfl
              · split
                · rfl
                · split <;> rfl
      | other _ => rfl

/-- What such a report leaves of the state. -/
theorem attrItem_state {made : Board × Option CJson} (h₀ : LooksNothingUp b)
    (ha : b.dev.attr[j]? = some a)
    (hr : a.isReported = true) (hmade : attrItem j a b = some made) :
    made.1 = b ∨ ∃ v, made.1 = b.setValue j v := by
  rcases attrItem_cases hmade with ⟨hsame, -⟩ | ⟨-, -, -, hset, -⟩ | ⟨ht, hkey, -, hid⟩
  · exact Or.inl hsame
  · exact Or.inr ⟨_, hset⟩
  · refine Or.inl (reportCookbookID_quiet ?_ hid)
    rw [← looksUp_iff_finds ha hr ht hkey]
    exact h₀ j

theorem untouched_step (h : Untouched b₀ (j :: l) b) (h₀ : LooksNothingUp b₀) (hj : j ∉ l)
    {resp : Members}
    {out : Board × Members} (hout : getAttrReportValue j b resp = some out) :
    Untouched b₀ l out.1 := by
  have hvisit := getAttrReportValue_visit hout
  have hquiet := hvisit.quiet (h.quiet h₀ j)
  have hstate : out.1 = b ∨ (∃ v, out.1 = b.setValue j v) ∨ out.1 = b.noteReported j ∨
      ∃ v, out.1 = (b.setValue j v).noteReported j := by
    obtain ⟨a, ha, ⟨-, rfl⟩ | ⟨hr, made, hmade, rfl⟩⟩ := getAttrReportValue_cases hout
    · exact Or.inl rfl
    · rcases attrItem_state (h.quiet h₀) ha hr hmade with hsame | ⟨v, hset⟩
      · rw [hsame]
        split
        · exact Or.inr (Or.inr (Or.inl rfl))
        · exact Or.inl rfl
      · rw [hset]
        split
        · exact Or.inr (Or.inr (Or.inr ⟨v, rfl⟩))
        · exact Or.inr (Or.inl ⟨v, rfl⟩)
  have hrest : out.1.db = b.db ∧ out.1.dev.softwareVer = b.dev.softwareVer ∧
      out.1.dev.remind = b.dev.remind ∧ out.1.mac = b.mac ∧ out.1.heap = b.heap ∧
      ∀ k, k ≠ j → out.1.dev.attr[k]? = b.dev.attr[k]? := by
    rcases hstate with heq | ⟨v, heq⟩ | heq | ⟨v, heq⟩
    · rw [heq]
      exact ⟨rfl, rfl, rfl, rfl, rfl, fun _ _ => rfl⟩
    · rw [heq]
      exact ⟨rfl, rfl, rfl, rfl, rfl, fun _ hk => Board.setValue_get_ne hk⟩
    · rw [heq]
      exact ⟨rfl, rfl, rfl, rfl, rfl, fun _ _ => rfl⟩
    · rw [heq]
      exact ⟨rfl, rfl, rfl, rfl, rfl, fun _ hk => Board.setValue_get_ne hk⟩
  obtain ⟨hdb, hver, hremind, hmac, hheap, hget⟩ := hrest
  exact ⟨hdb.trans h.db, hver.trans h.softwareVer, hremind.trans h.remind, hmac.trans h.mac,
    hheap.trans h.heap, h.kept.trans hvisit.kept, hquiet.2.trans h.nameByte, fun k hk =>
      (hget k fun he => hj (he ▸ hk)).trans (h.get k (List.mem_cons_of_mem _ hk))⟩

/-- The members of an attribute do not depend on the reports before it. -/
theorem getAttrReportValue_shown (h : Untouched b₀ (j :: l) b) (h₀ : LooksNothingUp b₀)
    (resp : Members) :
    (getAttrReportValue j b resp).map (·.2) = (shown b₀ j).map (resp ++ ·) := by
  have hget := h.get j List.mem_cons_self
  rw [shown, getAttrReportValue, getAttrReportValue, hget]
  cases ha : b₀.dev.attr[j]? with
  | none => rfl
  | some a =>
      simp only [Option.bind_eq_bind, Option.bind_some]
      cases hr : a.isReported with
      | false => simp
      | true =>
          have hitem := attrItem_untouched h h₀ (hget.trans ha) ha hr
          simp only [Bool.not_true, Bool.false_eq_true, if_false]
          cases hmade : attrItem j a b with
          | none =>
              rw [hmade, Option.map_none] at hitem
              rw [Option.map_eq_none_iff.mp hitem.symm]
              rfl
          | some made =>
              rw [hmade, Option.map_some] at hitem
              obtain ⟨made₀, hmade₀, hsame⟩ := Option.map_eq_some_iff.mp hitem.symm
              rw [hmade₀, Option.bind_some, Option.bind_some, hsame]
              cases made.2 with
              | none => simp
              | some item => simp

/-- They all have its name. -/
theorem key_shown {members : Members} (hshown : shown b j = some members)
    (ha : b.dev.attr[j]? = some a) : ∀ m ∈ members, m.1 = a.cloudKey := by
  obtain ⟨out, hout, rfl⟩ := Option.map_eq_some_iff.mp hshown
  obtain ⟨a', ha', ⟨-, rfl⟩ | ⟨-, made, -, rfl⟩⟩ := getAttrReportValue_cases hout
  · exact fun _ hm => absurd hm List.not_mem_nil
  · obtain rfl := Option.some.inj (ha.symm.trans ha')
    intro m hm
    rw [List.nil_append, Option.mem_toList] at hm
    obtain ⟨item, -, rfl⟩ := Option.map_eq_some_iff.mp hm
    rfl

/-- **GETALL** reports every attribute as it is at the start. -/
theorem getall_loop (h₀ : LooksNothingUp b₀) {resp : Members} {out : Board × Members} (hl : l.Nodup)
    (h : Untouched b₀ l b)
    (hout : l.foldlM (fun (out : Board × Members) i => getAttrReportValue i out.1 out.2) (b, resp) =
      some out) :
    Untouched b₀ [] out.1 ∧
      ∃ parts : List Members, l.mapM (shown b₀) = some parts ∧ out.2 = resp ++ parts.flatten := by
  induction l generalizing b resp with
  | nil =>
      obtain rfl := Option.some.inj hout
      exact ⟨h, [], rfl, by simp⟩
  | cons j l ih =>
      obtain ⟨hj, hl⟩ := List.nodup_cons.mp hl
      rw [List.foldlM_cons] at hout
      obtain ⟨mid, hmid, hout⟩ := Option.bind_eq_some_iff.mp hout
      have hshown := getAttrReportValue_shown h h₀ resp
      rw [hmid, Option.map_some] at hshown
      obtain ⟨part, hpart, hadd⟩ := Option.map_eq_some_iff.mp hshown.symm
      obtain ⟨hend, parts, hparts, heq⟩ := ih hl (untouched_step h h₀ hj hmid) hout
      refine ⟨hend, part :: parts, ?_, ?_⟩
      · rw [List.mapM_cons, hpart, hparts]
        rfl
      · rw [heq, ← hadd, List.flatten_cons, List.append_assoc]

/-- **GET** reports those of them that it asks for. -/
theorem get_loop (h₀ : LooksNothingUp b₀) (root : CJson) (resp : Members) {parts : List Members}
    (hl : l.Nodup) (h : Untouched b₀ l b) (hparts : l.mapM (shown b₀) = some parts) :
    ∃ out : Board × Members, l.foldlM (fun (out : Board × Members) i => do
        let attr ← out.1.dev.attr[i]?
        if root.hasObjectItem attr.cloudKey then getAttrReportValue i out.1 out.2 else pure out)
        (b, resp) = some out ∧ Untouched b₀ [] out.1 ∧
      out.2 = resp ++ asked root parts.flatten := by
  induction l generalizing b resp parts with
  | nil =>
      obtain rfl := Option.some.inj hparts
      exact ⟨(b, resp), rfl, h, by simp [asked]⟩
  | cons j l ih =>
      obtain ⟨hj, hl⟩ := List.nodup_cons.mp hl
      rw [List.mapM_cons] at hparts
      obtain ⟨part, hpart, hparts⟩ := Option.bind_eq_some_iff.mp hparts
      obtain ⟨rest, hrest, hparts⟩ := Option.bind_eq_some_iff.mp hparts
      obtain rfl := Option.some.inj hparts
      have hget := h.get j List.mem_cons_self
      have ha : ∃ a, b₀.dev.attr[j]? = some a := by
        obtain ⟨out, hout, -⟩ := Option.map_eq_some_iff.mp hpart
        obtain ⟨a, ha, -⟩ := getAttrReportValue_cases hout
        exact ⟨a, ha⟩
      obtain ⟨a, ha⟩ := ha
      have hasked := asked_of_key root (key_shown hpart ha)
      rw [List.foldlM_cons]
      simp only [hget, ha, Option.bind_eq_bind, Option.bind_some]
      by_cases hkey : root.hasObjectItem a.cloudKey = true
      · have hshown := getAttrReportValue_shown h h₀ resp
        rw [hpart, Option.map_some] at hshown
        obtain ⟨mid, hmid, hadd⟩ := Option.map_eq_some_iff.mp hshown
        rw [if_pos hkey] at hasked
        obtain ⟨out, hout, hend, heq⟩ := ih mid.2 hl (untouched_step h h₀ hj hmid) hrest
        refine ⟨out, ?_, hend, ?_⟩
        · rw [if_pos hkey, hmid]
          exact hout
        · rw [heq, hadd, List.flatten_cons, asked_append, hasked, List.append_assoc]
      · rw [if_neg hkey] at hasked
        have hskip : Untouched b₀ l b := ⟨h.db, h.softwareVer, h.remind, h.mac, h.heap, h.kept,
          h.nameByte, fun k hk => h.get k (List.mem_cons_of_mem _ hk)⟩
        obtain ⟨out, hout, hend, heq⟩ := ih resp hl hskip hrest
        refine ⟨out, ?_, hend, ?_⟩
        · rw [if_neg hkey]
          exact hout
        · rw [heq, List.flatten_cons, asked_append, hasked, List.nil_append]

end

/-! ## The answers -/

/-- Names are asked for whatever their case. -/
theorem hasObjectItem_congr {root : CJson} {name name' : CStr}
    (h : caseInsensitiveEq name name' = true) :
    root.hasObjectItem name' = root.hasObjectItem name := by
  have hlower : name.map tolower = name'.map tolower := by simpa [caseInsensitiveEq] using h
  have hget : root.getObjectItem name' = root.getObjectItem name := by
    cases root <;> simp only [CJson.getObjectItem, caseInsensitiveEq, hlower]
  rw [CJson.hasObjectItem, CJson.hasObjectItem, hget]

theorem getObjectItem_asked {root : CJson} {name : CStr} {members : Members} :
    (CJson.object (asked root members)).getObjectItem name =
      if root.hasObjectItem name then (CJson.object members).getObjectItem name else none := by
  simp only [CJson.getObjectItem, asked, List.find?_filter]
  split
  · rename_i hname
    refine congrArg (fun p => Option.map _ (List.find? p members)) (funext fun m => ?_)
    cases hm : caseInsensitiveEq name m.1 with
    | false => simp
    | true => simp [hasObjectItem_congr hm, hname]
  · rename_i hname
    rw [Option.map_eq_none_iff, List.find?_eq_none]
    intro m _ hm
    rw [decide_eq_true_eq] at hm
    rw [hasObjectItem_congr hm.2] at hm
    exact hname hm.1

/-- **A GET is a part of a GETALL.**  Where GETALL is answered, and none of its reports looks
a recipe up, a GET is answered too: its members are those of the two answers to GETALL that
it asks for, in the order of the main one and of that of the database.  So under each name
the user interface finds what GETALL says, or nothing if it did not ask. -/
theorem get_restricts_getall {root : CJson} {s : Readings} {b b' : Board} {db main : Members}
    (hquiet : LooksNothingUp b) (hall : udsGetall s b = some (b', db, main)) :
    ∃ b'' members, udsGet root s b = some (b'', members) ∧
      members = (main ++ db).filter (fun m => root.hasObjectItem m.1) ∧
      ∀ name, (CJson.object members).getObjectItem name =
        if root.hasObjectItem name then (CJson.object (main ++ db)).getObjectItem name else none := by
  simp only [udsGetall, Option.bind_eq_bind, Option.pure_def] at hall
  obtain ⟨out, hout, heq⟩ := Option.bind_eq_some_iff.mp hall
  obtain ⟨rfl, rfl, rfl⟩ := Prod.mk.inj (Option.some.inj heq) |>.imp_right Prod.mk.inj
  obtain ⟨hend, parts, hparts, hmain⟩ := getall_loop hquiet List.nodup_range (.refl b _) hout
  obtain ⟨got, hgot, hgend, hgmain⟩ :=
    get_loop hquiet root (tableRespGet wifiSetAttr root s []) List.nodup_range (.refl b _) hparts
  have hdb : databaseRespGet root got.1.db = asked root (databaseReports out.1.db) := by
    rw [hend.db, ← hgend.db]
    rfl
  have hmembers : tableRespGet deviceSetAttr root s (tableRespGet otaSetAttr root s got.2) ++
      databaseRespGet root got.1.db =
        asked root (tableRespGetall deviceSetAttr s (tableRespGetall otaSetAttr s out.2) ++
          databaseReports out.1.db) := by
    simp only [hdb, hgmain, hmain, tableRespGet_eq, tableRespGetall_eq, asked_append,
      List.nil_append, List.append_assoc]
  refine ⟨got.1, _, ?_, hmembers, fun name => ?_⟩
  · simp only [udsGet, Option.bind_eq_bind, Option.pure_def]
    rw [cloudRespGet, hgot, Option.bind_some]
  · rw [hmembers]
    exact getObjectItem_asked

/-- A device on its network, before anything has happened. -/
def startReadings : Readings where
  wifiRunningState := 4
  wifiScanR := cstr "[]"
  ssid := cstr "home"
  bssid := []
  ipAddress := cstr "192.168.1.7"
  macAddress := []
  otaState := 0
  newVersion := []
  deviceCategory := []
  deviceModel := cstr "X50BC"
  updateLog := []
  afterSalesPhone := []
  quad := unregisteredQuad
  tokenState := 0

/-- A GET for something of each module. -/
def getRoot : CJson :=
  .object [(cstr "WifiState", .null), (cstr "hoodspeed", .null), (cstr "OTAState", .null),
    (cstr "QrCode", .null), (cstr "CookHistory", .null), (cstr "Nothing", .null)]

theorem looksNothingUp_noRecipes (attr : List CloudAttr) :
    LooksNothingUp (startBoard noRecipes attr) := by
  rintro j ⟨a, -, -, -, -, -, -, hrows⟩
  exact hrows rfl

theorem get_restricts_getall_profile :
    ∃ b' db main, udsGetall startReadings (startBoard noRecipes devProfile) = some (b', db, main) ∧
      ∃ b'' members, udsGet getRoot startReadings (startBoard noRecipes devProfile) =
          some (b'', members) ∧
        members = (main ++ db).filter (fun m => getRoot.hasObjectItem m.1) ∧
        ∀ name, (CJson.object members).getObjectItem name =
          if getRoot.hasObjectItem name then (CJson.object (main ++ db)).getObjectItem name
          else none := by
  obtain ⟨⟨b', db, main⟩, hall⟩ := Option.isSome_iff_exists.mp
    (show (udsGetall startReadings (startBoard noRecipes devProfile)).isSome by decide +kernel)
  exact ⟨b', db, main, hall, get_restricts_getall (looksNothingUp_noRecipes devProfile) hall⟩

end X50
