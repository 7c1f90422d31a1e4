/-
# `X50.CloudWrites` — what `cloud_resp_set` writes, and what it sends

`cloud_resp_set` asks `get_attr_set_value` to write a record at the end of a
static buffer of 256 bytes, and moves the end by what that returns.  What it
returns is the length of the ATTRIBUTE and one; what it writes follows the REQUEST:
the bytes of a string, twelve for each stage of a dish.

The model of `X50.CloudSet` stops where the program leaves its arrays.  Here the
writes are followed to the end, whatever they hit (`frameWrites`), up to a NULL that
is dereferenced.  `frame_exact_iff` says for which requests and tables they stay
inside, and every record is as long as the function says.
-/
import X50.CloudBuffers

namespace X50

open X50.Lib

/-! ## Writes -/

/-- What the stages of a dish write: how many bytes, which reminders and where, and
whether they come to an end. -/
structure StageWrites where
  bytes : Nat
  reminds : List (Nat × CStr)
  ends : Bool
deriving DecidableEq, Repr

/-- The number of the stage, its `RemindText` and the flag. -/
def remindWrites (i : Nat) (arraySub : CJson) : StageWrites :=
  match arraySub.getObjectItem (cstr "RemindText") with
  | none => ⟨2, [], true⟩
  | some text =>
      match text.valuestring with
      | none => ⟨1, [], false⟩
      | some text => ⟨2, if 0 < text.length then [(i, text)] else [], true⟩

/-- A turn of the stage loop of `get_attr_set_value`. -/
def stageWrites (i : Nat) (arraySub : CJson) : StageWrites :=
  let head := remindWrites i arraySub
  if !head.ends then head
  else if !arraySub.hasObjectItem (cstr "Mode") then { head with ends := false }
  else if !arraySub.hasObjectItem (cstr "Temp") then { head with bytes := 3, ends := false }
  else if !arraySub.hasObjectItem (cstr "Timer") then { head with bytes := 5, ends := false }
  else { head with bytes := 12 }

/-- The stage loop, from stage `i` on. -/
def stagesWrites (i : Nat) : List CJson → StageWrites
  | [] => ⟨0, [], true⟩
  | arraySub :: rest =>
      let stage := stageWrites i arraySub
      if stage.ends then
        let more := stagesWrites (i + 1) rest
        ⟨stage.bytes + more.bytes, stage.reminds ++ more.reminds, more.ends⟩
      else stage

/-- What a call of `get_attr_set_value` writes, from `out[0]` on and to `remind`, and
what it returns, if it does. -/
structure SetWrites where
  bytes : Nat
  reminds : List (Nat × CStr)
  returned : Option Nat
deriving DecidableEq, Repr

/-- `get_attr_set_value(ptr, item, out)` -/
def setWrites (ptr : CloudAttr) (item : CJson) : SetWrites :=
  let record : SetWrites := ⟨ptr.uartByteLen.toNat + 1, [], some (ptr.uartByteLen.toNat + 1)⟩
  let nothing : SetWrites := ⟨0, [], some 0⟩
  match ptr.cloudValueType with
  | .struct =>
      if ptr.uartCmd = uartCmdMultistageSet then
        if item.getArraySize = 0 then nothing
        else
          let stages := stagesWrites 0 item.children
          ⟨2 + stages.bytes, stages.reminds,
            if stages.ends then some ((UInt8.ofNat (item.getArraySize * 12 + 1)).toNat + 1)
            else none⟩
      else { record with bytes := 1 }
  | .string =>
      match item.valuestring with
      | none => ⟨0, [], none⟩
      | some s =>
          if ptr.cloudKey = cstr "CookbookName" then nothing
          else { record with bytes := s.length + 1 }
  | .stringNum =>
      match item.valuestring with
      | none => ⟨0, [], none⟩
      | some s => if (stol s).isSome then record else nothing
  | _ => record

/-- The attributes a request sets, with their items: up to the first whose item is
not read to its end. -/
def reached (root : CJson) : List CloudAttr → List (CloudAttr × CJson)
  | [] => []
  | a :: rest =>
      match if a.isSettable then root.getObjectItem a.cloudKey else none with
      | none => reached root rest
      | some item =>
          if (setWrites a item).returned.isSome then (a, item) :: reached root rest
          else [(a, item)]

/-- The calls of `get_attr_set_value` that a request leads to. -/
def frameWrites (root : CJson) (attr : List CloudAttr) : List SetWrites :=
  (reached root attr).map fun p => setWrites p.1 p.2

/-- Where they write: `uart_buf_len` moves by what was returned. -/
def placed : Nat → List SetWrites → List (Nat × SetWrites)
  | _, [] => []
  | uartBufLen, w :: ws => (uartBufLen, w) :: placed (uartBufLen + w.returned.getD 0) ws

/-- The length `cloud_resp_set` sends. -/
def sentLength : List SetWrites → Option Nat
  | [] => some 0
  | w :: ws => do pure ((← w.returned) + (← sentLength ws))

/-! ## Exact frames -/

/-- The frame of the request is bounded and exact. -/
structure FrameExact (root : CJson) (attr : List CloudAttr) : Prop where
  /-- all bytes are written inside `uart_buf` -/
  inside : ∀ r ∈ placed 0 (frameWrites root attr), ∀ k < r.2.bytes, r.1 + k < 256
  /-- all reminders inside `remind` -/
  reminds : ∀ w ∈ frameWrites root attr, ∀ r ∈ w.reminds, r.1 < 3 ∧ r.2.length < 48
  /-- every record is as long as what is returned for it -/
  exact : ∀ w ∈ frameWrites root attr, ∀ len ∈ w.returned, len = w.bytes
  /-- and what is sent is what was written -/
  sent : ∀ len ∈ sentLength (frameWrites root attr),
    len = ((frameWrites root attr).map SetWrites.bytes).sum

/-- The item has the length of the attribute, and its reminders have a place. -/
def ItemFits (a : CloudAttr) (item : CJson) : Prop :=
  match a.cloudValueType with
  | .struct =>
      if a.uartCmd = uartCmdMultistageSet then
        ((stagesWrites 0 item.children).ends = true → item.getArraySize ≤ 21) ∧
          ∀ r ∈ (stagesWrites 0 item.children).reminds, r.1 < 3 ∧ r.2.length < 48
      else a.uartByteLen = 0
  | .string =>
      a.cloudKey = cstr "CookbookName" ∨
        ∀ s ∈ item.valuestring, s.length = a.uartByteLen.toNat
  | _ => True

instance (a : CloudAttr) (item : CJson) : Decidable (ItemFits a item) := by
  unfold ItemFits
  split <;> infer_instance

/-- Every item fits, and so do all together. -/
structure FrameFits (root : CJson) (attr : List CloudAttr) : Prop where
  items : ∀ p ∈ reached root attr, ItemFits p.1 p.2
  total : ((frameWrites root attr).map SetWrites.bytes).sum ≤ 256

theorem stageWrites_bytes {i : Nat} {arraySub : CJson} :
    (stageWrites i arraySub).ends = true → (stageWrites i arraySub).bytes = 12 := by
  unfold stageWrites
  dsimp only
  split
  · rename_i h
    intro he
    simp [he] at h
  · split
    · simp
    · split
      · simp
      · split
        · simp
        · intro _
          rfl

/-- A dish that is read to its end has twelve bytes for each stage. -/
theorem stagesWrites_bytes {i : Nat} {stages : List CJson}
    (h : (stagesWrites i stages).ends = true) :
    (stagesWrites i stages).bytes = 12 * stages.length := by
  induction stages generalizing i with
  | nil => rfl
  | cons arraySub rest ih =>
      rw [stagesWrites] at h ⊢
      dsimp only at h ⊢
      split at h
      · rename_i hone
        rw [if_pos hone]
        dsimp only
        rw [stageWrites_bytes hone, ih h, List.length_cons]
        omega
      · rename_i hone
        exact absurd h hone

/-- `12 n + 1` is the length of a dish of `n` stages as long as it fits a byte. -/
theorem dishLength_iff {n : Nat} :
    (UInt8.ofNat (n * 12 + 1)).toNat + 1 = 2 + 12 * n ↔ n ≤ 21 := by
  rw [UInt8.toNat_ofNat']
  have h256 : (2 : Nat) ^ 8 = 256 := rfl
  omega

/-- **An item fits exactly when its record is as long as is returned for it, and its
reminders are written inside the table.** -/
theorem itemFits_iff {a : CloudAttr} {item : CJson} :
    ItemFits a item ↔ (∀ len ∈ (setWrites a item).returned, len = (setWrites a item).bytes) ∧
      ∀ r ∈ (setWrites a item).reminds, r.1 < 3 ∧ r.2.length < 48 := by
  unfold ItemFits setWrites
  cases a.cloudValueType with
  | num => simp
  | stringNum =>
      cases item.valuestring with
      | none => simp
      | some s => by_cases hn : (stol s).isSome = true <;> simp [hn]
  | string =>
      cases item.valuestring with
      | none => simp
      | some s =>
          by_cases hname : a.cloudKey = cstr "CookbookName"
          · simp [hname]
          · simp [hname, eq_comm]
  | struct =>
      dsimp only
      split
      · by_cases hz : item.getArraySize = 0
        · have hnil : item.children = [] := List.eq_nil_of_length_eq_zero hz
          simp [hz, hnil, stagesWrites]
        · rw [if_neg hz]
          refine and_congr_left fun _ => ?_
          dsimp only
          by_cases he : (stagesWrites 0 item.children).ends = true
          · simp only [he, if_true, forall_const, Option.mem_some_iff, forall_eq',
              stagesWrites_bytes he]
            exact dishLength_iff.symm
          · simp [he]
      · simp [← UInt8.toNat_inj]
  | other n => simp

/-- The first attribute of a table is not set, or its item is read to its end, or it is
the last that is reached. -/
theorem frameWrites_cons (root : CJson) (a : CloudAttr) (rest : List CloudAttr) :
    frameWrites root (a :: rest) = frameWrites root rest ∨
      (∃ item len, (setWrites a item).returned = some len ∧
        frameWrites root (a :: rest) = setWrites a item :: frameWrites root rest) ∨
      ∃ item, (setWrites a item).returned = none ∧
        frameWrites root (a :: rest) = [setWrites a item] := by
  unfold frameWrites
  rw [reached]
  cases (if a.isSettable then root.getObjectItem a.cloudKey else none : Option CJson) with
  | none => exact Or.inl rfl
  | some item =>
      refine Or.inr ?_
      dsimp only
      cases hlen : (setWrites a item).returned with
      | none => exact Or.inr ⟨item, hlen, rfl⟩
      | some len => exact Or.inl ⟨item, len, hlen, rfl⟩

theorem bytes_inside_iff {off n : Nat} (hoff : off ≤ 256) :
    (∀ k < n, off + k < 256) ↔ off + n ≤ 256 := by
  constructor
  · intro h
    rcases Nat.eq_zero_or_pos n with rfl | hpos
    · exact hoff
    · have := h (n - 1) (by omega)
      omega
  · exact fun h k hk => by omega

/-- Records that are as long as is returned for them lie inside exactly when all
together do. -/
theorem placed_inside_iff {root : CJson} {attr : List CloudAttr} {off : Nat} (hoff : off ≤ 256)
    (hexact : ∀ w ∈ frameWrites root attr, ∀ len ∈ w.returned, len = w.bytes) :
    (∀ r ∈ placed off (frameWrites root attr), ∀ k < r.2.bytes, r.1 + k < 256) ↔
      off + ((frameWrites root attr).map SetWrites.bytes).sum ≤ 256 := by
  induction attr generalizing off with
  | nil => simp [frameWrites, reached, placed, hoff]
  | cons a rest ih =>
      rcases frameWrites_cons root a rest with h | ⟨item, len, hlen, h⟩ | ⟨item, hlen, h⟩
      · rw [h] at hexact ⊢
        exact ih hoff hexact
      · rw [h] at hexact ⊢
        have hbytes : len = (setWrites a item).bytes := hexact _ List.mem_cons_self len hlen
        have hrest := fun w hw => hexact w (List.mem_cons_of_mem _ hw)
        simp only [placed, List.forall_mem_cons, hlen, Option.getD_some, List.map_cons,
          List.sum_cons, bytes_inside_iff hoff]
        by_cases hin : off + (setWrites a item).bytes ≤ 256
        · rw [ih (by omega) hrest, and_iff_right hin, hbytes, Nat.add_assoc]
        · exact iff_of_false (fun hall => hin hall.1) (by omega)
      · rw [h]
        simp [placed, bytes_inside_iff hoff]

theorem sentLength_eq {ws : List SetWrites}
    (hexact : ∀ w ∈ ws, ∀ len ∈ w.returned, len = w.bytes) {len : Nat}
    (h : sentLength ws = some len) : len = (ws.map SetWrites.bytes).sum := by
  induction ws generalizing len with
  | nil => exact (Option.some.inj h).symm
  | cons w ws ih =>
      obtain ⟨one, hone, h⟩ := Option.bind_eq_some_iff.mp h
      obtain ⟨more, hmore, h⟩ := Option.bind_eq_some_iff.mp h
      obtain rfl := Option.some.inj h
      rw [List.map_cons, List.sum_cons, hexact w List.mem_cons_self one hone,
        ih (fun w hw => hexact w (List.mem_cons_of_mem _ hw)) hmore]

/-- The frame of a request is bounded and exact exactly when every string has the
length of its attribute, every STRUCT besides dishes has none, every dish has at most
21 stages, every reminder is short and belongs to one of the first three, and the
records are 256 bytes together: for every table and every request. -/
theorem frame_exact_iff (root : CJson) (attr : List CloudAttr) :
    FrameExact root attr ↔ FrameFits root attr := by
  have hitems : (∀ p ∈ reached root attr, ItemFits p.1 p.2) ↔
      (∀ w ∈ frameWrites root attr, ∀ len ∈ w.returned, len = w.bytes) ∧
        ∀ w ∈ frameWrites root attr, ∀ r ∈ w.reminds, r.1 < 3 ∧ r.2.length < 48 := by
    simp only [frameWrites, List.forall_mem_map, itemFits_iff]
    exact forall₂_and
  have hzero : ∀ n : Nat, 0 + n ≤ 256 ↔ n ≤ 256 := fun n => by rw [Nat.zero_add]
  constructor
  · intro h
    refine ⟨hitems.mpr ⟨h.exact, h.reminds⟩, (hzero _).mp ?_⟩
    exact (placed_inside_iff (Nat.zero_le 256) h.exact).mp h.inside
  · intro h
    obtain ⟨hexact, hreminds⟩ := hitems.mp h.items
    exact {
      inside := (placed_inside_iff (Nat.zero_le 256) hexact).mpr ((hzero _).mpr h.total)
      reminds := hreminds
      exact := hexact
      sent := fun _ => sentLength_eq hexact }

/-! ## The writes of the model -/

/-- Where the stage loop of the model has a result, it has read all stages, written
these bytes and put these reminders into the table. -/
theorem setStages_writes {i : Nat} {remind : List CStr} {body : List UInt8} {stages : List CJson}
    {out : List CStr × List UInt8} (h : setStages i remind body stages = some out) :
    (stagesWrites i stages).ends = true ∧ out.1.length = remind.length ∧
      out.2.length = body.length + (stagesWrites i stages).bytes ∧
      ∀ r ∈ (stagesWrites i stages).reminds, r.1 < remind.length ∧ r.2.length < 48 := by
  induction stages generalizing i remind body with
  | nil =>
      obtain rfl := Option.some.inj h
      simp [stagesWrites]
  | cons arraySub rest ih =>
      obtain ⟨⟨remind', flag⟩, hremind, h⟩ := Option.bind_eq_some_iff.mp h
      obtain ⟨mode, hmode, h⟩ := Option.bind_eq_some_iff.mp h
      obtain ⟨temp, htemp, h⟩ := Option.bind_eq_some_iff.mp h
      obtain ⟨timer, htimer, h⟩ := Option.bind_eq_some_iff.mp h
      have hhead : (remindWrites i arraySub).ends = true ∧ remind'.length = remind.length ∧
          ∀ r ∈ (remindWrites i arraySub).reminds, r.1 < remind.length ∧ r.2.length < 48 := by
        cases stageRemind_cases hremind with
        | absent hitem => simp [remindWrites, hitem]
        | empty hitem hs => simp [remindWrites, hitem, hs]
        | text hitem hs hpos hi hfits => simp [remindWrites, hitem, hs, hpos, hi, hfits]
      obtain ⟨hends, hlen, hplace⟩ := hhead
      have hstage : stageWrites i arraySub = { remindWrites i arraySub with bytes := 12 } := by
        simp [stageWrites, hends, CJson.hasObjectItem, hmode, htemp, htimer]
      obtain ⟨hrest, hlen', hbytes, hplace'⟩ := ih h
      rw [stagesWrites, hstage]
      simp only [hends, if_true, hrest, hlen', hbytes, List.forall_mem_append, true_and]
      refine ⟨hlen, ?_, hplace, hlen ▸ hplace'⟩
      have htwo : ∀ name, (twoBytesOr arraySub name).length = 2 := by
        intro name
        unfold twoBytesOr
        split <;> rfl
      simp only [List.length_append, twoBytes, htwo, List.length_cons, List.length_nil]
      omega

/-- Where `get_attr_set_value` of the model has a result, it has written the record of
`setWrites` and returns its length. -/
theorem getAttrSetValue_writes {a : CloudAttr} {item : CJson} {remind : List CStr}
    {set : SetValue} (h : getAttrSetValue a item remind = some set) :
    set.remind.length = remind.length ∧
      (∀ r ∈ (setWrites a item).reminds, r.1 < remind.length ∧ r.2.length < 48) ∧
      (set.body = none → (setWrites a item).returned = some 0 ∧ (setWrites a item).bytes = 0) ∧
      ∀ body, set.body = some body →
        (setWrites a item).returned = some (set.ptr.uartByteLen.toNat + 1) ∧
          (setWrites a item).bytes = body.length + 1 := by
  have hnum : ∀ {num bytes}, numBytes num a.uartByteLen.toNat = some bytes →
      bytes.length = a.uartByteLen.toNat := by
    intro num bytes hbytes
    unfold numBytes at hbytes
    split at hbytes
    · obtain rfl := Option.some.inj hbytes
      simp
    · cases hbytes
  unfold setWrites
  cases getAttrSetValue_cases h with
  | noStage ht hcmd hz => simp [ht, hcmd, hz]
  | dish ht hcmd hz hstages =>
      obtain ⟨hends, hlen, hbytes, hplace⟩ := setStages_writes hstages
      simp only [ht, if_pos hcmd, if_neg hz]
      refine ⟨?_, hplace, fun hno => by simp at hno, fun body hbody => ?_⟩
      · split
        · exact (List.length_map _).trans hlen
        · exact hlen
      · obtain rfl := Option.some.inj hbody
        simp only [hends, if_true, List.length_cons, true_and]
        simp only [List.length_nil, Nat.zero_add] at hbytes
        omega
  | struct ht hcmd => simp [ht, hcmd]
  | name ht hs hkey hfits => simp [ht, hs, hkey]
  | string ht hs hkey => simp [ht, hs, hkey]
  | noNumber ht hs hnumber => simp [ht, hs, hnumber]
  | stringNum ht hs hnumber hbytes => simp [ht, hs, hnumber, hnum hbytes]
  | num ht hbytes => rcases ht with ht | ⟨n, ht⟩ <;> simp [ht, hnum hbytes]

theorem sentLength_append {ws ws' : List SetWrites} {off len : Nat}
    (h : sentLength ws = some off) (h' : sentLength ws' = some len) :
    sentLength (ws ++ ws') = some (off + len) := by
  induction ws generalizing off with
  | nil =>
      obtain rfl := Option.some.inj h
      rw [List.nil_append, h', Nat.zero_add]
  | cons w ws ih =>
      obtain ⟨one, hone, h⟩ := Option.bind_eq_some_iff.mp h
      obtain ⟨more, hmore, h⟩ := Option.bind_eq_some_iff.mp h
      obtain rfl := Option.some.inj h
      rw [List.cons_append, sentLength, hone, ih hmore, Nat.add_assoc]
      rfl

theorem placed_append {ws ws' : List SetWrites} {start off : Nat}
    (h : sentLength ws = some off) :
    placed start (ws ++ ws') = placed start ws ++ placed (start + off) ws' := by
  induction ws generalizing start off with
  | nil =>
      obtain rfl := Option.some.inj h
      rfl
  | cons w ws ih =>
      obtain ⟨one, hone, h⟩ := Option.bind_eq_some_iff.mp h
      obtain ⟨more, hmore, h⟩ := Option.bind_eq_some_iff.mp h
      obtain rfl := Option.some.inj h
      rw [List.cons_append, placed, ih hmore, placed, List.cons_append, hone, Option.getD_some,
        Nat.add_assoc]

/-- Behind a table that is read to its end, one more attribute is one more call. -/
theorem frameWrites_concat {root : CJson} {attr : List CloudAttr} {a : CloudAttr} {off : Nat}
    (h : sentLength (frameWrites root attr) = some off) :
    frameWrites root (attr ++ [a]) = frameWrites root attr ++ frameWrites root [a] := by
  induction attr generalizing off with
  | nil => rfl
  | cons c rest ih =>
      unfold frameWrites at h ih ⊢
      rw [List.cons_append, reached]
      rw [reached] at h ⊢
      cases hitem : (if c.isSettable then root.getObjectItem c.cloudKey else none : Option CJson) with
      | none =>
          simp only [hitem] at h
          exact ih h
      | some item =>
          simp only [hitem] at h ⊢
          split at h
          · rename_i hlen
            obtain ⟨one, -, h⟩ := Option.bind_eq_some_iff.mp h
            obtain ⟨more, hmore, -⟩ := Option.bind_eq_some_iff.mp h
            rw [if_pos hlen, if_pos hlen, List.map_cons, List.map_cons, List.cons_append, ih hmore]
          · rename_i hno
            obtain ⟨one, hone, -⟩ := Option.bind_eq_some_iff.mp h
            exact absurd (by rw [hone]; rfl) hno

/-- The writes of one turn of `cloud_resp_set`. -/
theorem respSetAttr_writes {root : CJson} {i len : Nat} {b : Board} {out : Board × Nat}
    {a : CloudAttr} (ha : b.dev.attr[i]? = some a) (h : respSetAttr root i b len = some out) :
    out.1.handed = b.handed ∧ out.1.uartBuf.length = b.uartBuf.length ∧
      out.1.dev.remind.length = b.dev.remind.length ∧
      (∃ off, sentLength (frameWrites root [a]) = some off ∧ out.2 = len + off) ∧
      (∀ r ∈ placed len (frameWrites root [a]), ∀ k < r.2.bytes, r.1 + k < b.uartBuf.length) ∧
      ∀ w ∈ frameWrites root [a], ∀ r ∈ w.reminds, r.1 < b.dev.remind.length ∧ r.2.length < 48 := by
  cases respSetAttr_turn h with
  | @skipped c hc hno =>
      obtain rfl := Option.some.inj (ha.symm.trans hc)
      have hnone : frameWrites root [a] = [] := by
        unfold frameWrites
        rw [reached]
        split
        · rfl
        · rename_i item hitem
          split at hitem
          · rename_i hset
            rw [hno hset] at hitem
            cases hitem
          · cases hitem
      rw [hnone]
      exact ⟨rfl, rfl, rfl, ⟨0, rfl, rfl⟩, by simp [placed], by simp⟩
  | @unrecorded c item set hc hitem hset hval hbody =>
      obtain rfl := Option.some.inj (ha.symm.trans hc)
      obtain ⟨hlen, hplace, hnone, -⟩ := getAttrSetValue_writes hval
      obtain ⟨hret, hbytes⟩ := hnone hbody
      have hone : frameWrites root [a] = [setWrites a item] := by
        simp [frameWrites, reached, hset, hitem, hret]
      rw [hone]
      refine ⟨rfl, rfl, hlen, ⟨0, by simp [sentLength, hret], rfl⟩, ?_, by simpa using hplace⟩
      simp [placed, hbytes]
  | @recorded c item set body buf hc hitem hset hval hbody hbuf =>
      obtain rfl := Option.some.inj (ha.symm.trans hc)
      obtain ⟨hlen, hplace, -, hsome⟩ := getAttrSetValue_writes hval
      obtain ⟨hret, hbytes⟩ := hsome body hbody
      have hone : frameWrites root [a] = [setWrites a item] := by
        simp [frameWrites, reached, hset, hitem, hret]
      have hfits : len + (body.length + 1) ≤ b.uartBuf.length := by
        unfold writeAt at hbuf
        split at hbuf
        · rename_i hle
          simpa using hle
        · cases hbuf
      rw [hone]
      refine ⟨rfl, length_writeAt hbuf, hlen, ⟨_, by simp [sentLength, hret], rfl⟩, ?_,
        by simpa using hplace⟩
      simp only [placed, List.mem_singleton, forall_eq, hbytes]
      exact fun k hk => by omega

/-- **A frame of the model is the frame of the writes**: where the model has a result,
every item has been read to its end, every byte and every reminder went inside, and the
payload that was handed over is as long as was returned for its records. -/
theorem respSetFrame_writes {root : CJson} {b b' : Board} (h : respSetFrame root b = some b') :
    (∀ r ∈ placed 0 (frameWrites root b.dev.attr), ∀ k < r.2.bytes,
        r.1 + k < b.uartBuf.length) ∧
      (∀ w ∈ frameWrites root b.dev.attr, ∀ r ∈ w.reminds,
        r.1 < b.dev.remind.length ∧ r.2.length < 48) ∧
      ∃ len, sentLength (frameWrites root b.dev.attr) = some len ∧ ∃ payload,
        payload.length = len ∧
        b'.handed = b.handed ++ if 0 < len then [payload] else [] := by
  let Inv : Nat → Board × Nat → Prop := fun i s =>
    (s.1.handed = b.handed ∧ s.1.uartBuf.length = b.uartBuf.length ∧
      s.1.dev.remind.length = b.dev.remind.length) ∧
    sentLength (frameWrites root (b.dev.attr.take i)) = some s.2 ∧
    (∀ r ∈ placed 0 (frameWrites root (b.dev.attr.take i)), ∀ k < r.2.bytes,
      r.1 + k < b.uartBuf.length) ∧
    ∀ w ∈ frameWrites root (b.dev.attr.take i), ∀ r ∈ w.reminds,
      r.1 < b.dev.remind.length ∧ r.2.length < 48
  have hstep : ∀ i a (s s' : Board × Nat), b.dev.attr[i]? = some a →
      s.1.dev.attr[i]? = some a → Inv i s →
      respSetAttr root i s.1 s.2 = some s' → Inv (i + 1) s' := by
    rintro i a s s' ha hsa ⟨⟨hhanded, hbuf, hrem⟩, hsent, hin, hplace⟩ hs
    obtain ⟨hhanded', hbuf', hrem', ⟨off, hoff, hlen⟩, hin', hplace'⟩ := respSetAttr_writes hsa hs
    rw [hbuf] at hin'
    rw [hrem] at hplace'
    have htake : b.dev.attr.take (i + 1) = b.dev.attr.take i ++ [a] := by
      rw [List.take_add_one, ha, Option.toList_some]
    simp only [Inv, htake, frameWrites_concat hsent, placed_append hsent, List.forall_mem_append,
      Nat.zero_add]
    refine ⟨⟨hhanded'.trans hhanded, hbuf'.trans hbuf, hrem'.trans hrem⟩, ?_, ⟨hin, hin'⟩, hplace,
      hplace'⟩
    rw [hlen]
    exact sentLength_append hsent hoff
  have hstart : Inv 0 (b, 0) := by
    simp [Inv, frameWrites, reached, placed, sentLength]
  obtain ⟨done, len, hlast, hend⟩ := respSetFrame_turns (I := Inv) h hstart hstep
  simp only [Inv, List.take_length] at hlast
  obtain ⟨⟨hhanded, hbuf, -⟩, hsent, hin, hplace⟩ := hlast
  refine ⟨hin, hplace, len, hsent, ?_⟩
  rcases hend with ⟨rfl, rfl⟩ | ⟨⟨hpos, hle⟩, rfl⟩
  · refine ⟨[], rfl, ?_⟩
    rw [if_neg (Nat.lt_irrefl 0), List.append_nil, hhanded]
  · refine ⟨done.uartBuf.take len, by rw [List.length_take, Nat.min_eq_left hle], ?_⟩
    rw [if_pos hpos, hhanded]

/-! ## The profile of the repository -/

/-- An attribute as `cloud_parse_json` makes it. -/
def devAttr (cloudKey : String) (valueType : LinkValueType) (uartCmd uartByteLen : UInt8) :
    CloudAttr :=
  ⟨cstr cloudKey, valueType, .attrReportCtrl, uartCmd, uartByteLen,
    List.replicate uartByteLen.toNat 0⟩

/-- The table of `DevProfile.json`. -/
def devProfile : List CloudAttr :=
  [devAttr "ComSWVersion" .string 0 0, devAttr "WifiMac" .string 0 0,
    devAttr "ElcSWVersion" .string 1 1, devAttr "ElcHWVersion" .string 2 1, devAttr "" .string 3 1,
    devAttr "" .string 4 1, devAttr "SysPower" .num 5 1, devAttr "ErrorCode" .num 10 4,
    devAttr "ErrorCodeShow" .num 11 1, devAttr "LStoveStatus" .num 17 1,
    devAttr "RStoveStatus" .num 18 1, devAttr "HoodStoveLink" .num 19 1,
    devAttr "HoodLightLink" .num 20 1, devAttr "RStoveTimingState" .num 21 1,
    devAttr "RStoveTimingSet" .num 23 1, devAttr "RStoveTimingOpera" .num 22 1,
    devAttr "RStoveTimingLeft" .num 24 1, devAttr "HoodSpeed" .num 49 1,
    devAttr "HoodLight" .num 50 1, devAttr "HoodOffLeftTime" .num 52 1,
    devAttr "HoodOffTimer" .num 56 1, devAttr "MultiMode" .num 79 1,
    devAttr "LStOvState" .num 66 1, devAttr "LStOvMode" .num 67 1,
    devAttr "LStOvSetTemp" .num 68 2, devAttr "LStOvRealTemp" .num 69 2,
    devAttr "LStOvSetTimer" .num 70 2, devAttr "LStOvSetTimerLeft" .num 71 2,
    devAttr "LStOvOrderTimer" .num 72 2, devAttr "LStOvOrderTimerLeft" .num 73 2,
    devAttr "LStOvDoorState" .num 74 1, devAttr "LStOvLightState" .num 75 1,
    devAttr "MultiStageContent" .struct 76 13, devAttr "CookbookParam" .struct 76 13,
    devAttr "MultiStageState" .struct 77 3, devAttr "CookbookID" .num 80 4,
    devAttr "LStOvOperation" .num 65 1, devAttr "RStOvState" .num 82 1,
    devAttr "RStOvSetTemp" .num 83 2, devAttr "RStOvRealTemp" .num 84 2,
    devAttr "RStOvSetTimer" .num 85 2, devAttr "RStOvSetTimerLeft" .num 86 2,
    devAttr "RStOvOrderTimer" .num 87 2, devAttr "RStOvOrderTimerLeft" .num 88 2,
    devAttr "RStOvDoorState" .num 89 1, devAttr "RStOvLightState" .num 90 1,
    devAttr "RStOvMode" .num 91 1, devAttr "RStOvOperation" .num 81 1, devAttr "" .num 246 1,
    devAttr "PermitSteamStartStatus" .num 248 1, devAttr "CookbookName" .string 0 64]

/-- `ComSWVersion` is a string of length 0: a version is written, and one byte sent.  A
dish of 22 stages is written past the end of the buffer, and ten bytes are sent. -/
theorem frame_not_exact :
    frameWrites (.object [(cstr "ComSWVersion", .string (cstr "1.2"))]) devProfile =
        [⟨4, [], some 1⟩] ∧
      frameWrites (stageRequest 22) devProfile = [⟨266, [], some 10⟩] ∧
      ¬ FrameExact (.object [(cstr "ComSWVersion", .string (cstr "1.2"))]) devProfile ∧
      ¬ FrameExact (stageRequest 22) devProfile := by
  have hversion : frameWrites (.object [(cstr "ComSWVersion", .string (cstr "1.2"))]) devProfile =
      [⟨4, [], some 1⟩] := by decide +kernel
  have hdish : frameWrites (stageRequest 22) devProfile = [⟨266, [], some 10⟩] := by
    decide +kernel
  refine ⟨hversion, hdish, fun h => ?_, fun h => ?_⟩
  · have hexact := h.exact
    rw [hversion] at hexact
    exact absurd (hexact _ List.mem_cons_self 1 rfl) (by decide)
  · have hinside := h.inside
    rw [hdish] at hinside
    exact absurd (hinside _ List.mem_cons_self 256 (by decide)) (by decide)

end X50
