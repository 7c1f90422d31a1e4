/-
# `X50.CloudCopy` — what a reader of the reports knows of an attribute

The cloud and the clients of the user interface never see the table.  They see
objects whose members are named after attributes, and each keeps the last value it
was told for a key (`X50.Lib.Merge`).

Every path that writes a number into the table puts it into the object it is
building, behind everything else it says about that key: `Speaks` is what a part of
a report does to an attribute and to the objects, and it composes.  So a copy that is
up to date before a report is so after it (`sendDataToCloud_speaks`); and a report
of all attributes makes every copy so (`cloudRespGetall_told`, `sendAllToCloud_told`).

What is watched is one number under a key of its own.  `CookbookName` is left out:
a report of `CookbookID` names the recipe it has looked up under that key.
-/
import X50.CloudFrame
import X50.Lib.Merge

namespace X50

open X50.Lib

/-! ## Members -/

/-- The members of an object. -/
def CJson.members : CJson → Members
  | .object members => members
  | _ => []

/-- What a report posts to the cloud as properties. -/
def Report.posted : Report → Members
  | .platform root => root.members
  | .property root => root.members
  | .event _ _ => []

/-- What a report tells the user interface, in the `Data` of an EVENT. -/
def Report.told : Report → Members
  | .platform root => root.members
  | _ => []

/-- What a copy holds. -/
abbrev Copy := CStr → Option CJson

/-- Reports that mention the key nowhere. -/
def Hushed (key : CStr) (reports : List Report) : Prop := ∀ r ∈ reports, Silent key r.posted

theorem Hushed.nil {key : CStr} : Hushed key [] := fun _ hr => absurd hr List.not_mem_nil

theorem Hushed.append {key : CStr} {l l' : List Report} (h : Hushed key l) (h' : Hushed key l') :
    Hushed key (l ++ l') := by
  intro r hr
  rcases List.mem_append.mp hr with hr | hr
  · exact h r hr
  · exact h' r hr

theorem Hushed.posted {key : CStr} {l : List Report} (h : Hushed key l) :
    Silent key (l.flatMap Report.posted) :=
  .flatMap h

theorem Hushed.told {key : CStr} {l : List Report} (h : Hushed key l) :
    Silent key (l.flatMap Report.told) := by
  refine .flatMap fun r hr => ?_
  cases r with
  | platform root => exact h _ hr
  | property root => exact .nil
  | event eventId payload => exact .nil

/-- Reports are added, and none of them mentions the key. -/
def Adds (key : CStr) (s s' : HistoryState) : Prop :=
  ∃ new, s'.out = s.out ++ new ∧ Hushed key new

section

variable {key : CStr} {s s' s'' : HistoryState}

theorem Adds.of_eq (h : s'.out = s.out) : Adds key s s' :=
  ⟨[], by rw [h, List.append_nil], .nil⟩

theorem Adds.trans (h : Adds key s s') (h' : Adds key s' s'') : Adds key s s'' := by
  obtain ⟨new, hout, hnew⟩ := h
  obtain ⟨new', hout', hnew'⟩ := h'
  exact ⟨new ++ new', by rw [hout', hout, List.append_assoc], hnew.append hnew'⟩

theorem Adds.of_hushed {new : List Report} (hnew : Hushed key new) (h : s'.out = s.out ++ new) :
    Adds key s s' :=
  ⟨new, h, hnew⟩

theorem Adds.of_report {r : Report} (hr : Silent key r.posted) (h : s'.out = s.out ++ [r]) :
    Adds key s s' :=
  .of_hushed (fun _ hm => List.mem_singleton.mp hm ▸ hr) h

end

/-! ## What is watched -/

/-- The value of a number, as a report has it. -/
def CloudAttr.shown (a : CloudAttr) : CJson :=
  if a.cloudValueType = .stringNum then .string (decimal (cloudVal a.bytes))
  else .number (cloudVal a.bytes)

/-- A number that is reported. -/
def CloudAttr.isNumber (a : CloudAttr) : Prop :=
  a.isReported = true ∧ (a.cloudValueType = .num ∨ a.cloudValueType = .stringNum)

/-- Attribute `j` is a number under `key`, which no other attribute has, and which is
not `CookbookName`. -/
structure Watched (key : CStr) (j : Nat) (attr : List CloudAttr) : Prop where
  number : ∃ a, attr[j]? = some a ∧ a.cloudKey = key ∧ a.isNumber
  own : ∀ (k : Nat) a, attr[k]? = some a → a.cloudKey = key → k = j
  apart : key ≠ cstr "CookbookName"

/-- The copy has the value that is stored. -/
def UpToDate (key : CStr) (j : Nat) (b : Board) (copy : Copy) : Prop :=
  ∀ a, b.dev.attr[j]? = some a → copy key = some a.shown

section

variable {key : CStr} {j : Nat} {attr attr' : List CloudAttr}

theorem Watched.congr (h : Watched key j attr) (hl : SameLayout attr attr') :
    Watched key j attr' where
  number := by
    obtain ⟨a, ha, hkey, hrep, htype⟩ := h.number
    obtain ⟨a', ha', hlay⟩ := hl.get ha
    refine ⟨a', ha', (CloudAttr.layout_cloudKey hlay).trans hkey,
      (CloudAttr.layout_isReported hlay).trans hrep, ?_⟩
    rwa [CloudAttr.layout_cloudValueType hlay]
  own := by
    intro k a' ha' hkey
    obtain ⟨a, ha, hlay⟩ := hl.symm.get ha'
    exact h.own k a ha ((CloudAttr.layout_cloudKey hlay).trans hkey)
  apart := h.apart

theorem Watched.notName (h : Watched key j attr) : nameAt attr ≠ some j := by
  intro hq
  obtain ⟨a, ha, hkey, -⟩ := h.number
  obtain ⟨c, hc, hname⟩ := getAttrPtr_some hq
  obtain rfl := Option.some.inj (ha.symm.trans hc)
  exact h.apart (hkey.symm.trans hname)

end

/-! ## Parts of a report -/

/-- From `b`, with `resp` under construction, to `out`: nothing is said of the key on
the way, and a copy that is up to date stays so when the new members are merged. -/
structure Speaks (key : CStr) (j : Nat) (b : Board) (resp : Members) (out : Board × Members) :
    Prop where
  watched : Watched key j out.1.dev.attr
  reports : Adds key b.db out.1.db
  members : ∃ extra, out.2 = resp ++ extra ∧
    ∀ copy, UpToDate key j b copy → UpToDate key j out.1 (merge copy extra)

/-- The members that have been added to `resp` bring any copy up to date. -/
def Told (key : CStr) (j : Nat) (resp : Members) (out : Board × Members) : Prop :=
  ∃ extra, out.2 = resp ++ extra ∧ ∀ copy, UpToDate key j out.1 (merge copy extra)

section

variable {key : CStr} {j : Nat} {b : Board} {resp : Members} {out out' : Board × Members}

theorem Speaks.refl (h : Watched key j b.dev.attr) : Speaks key j b resp (b, resp) where
  watched := h
  reports := .of_eq rfl
  members := ⟨[], (List.append_nil _).symm, fun _ hc => hc⟩

theorem Speaks.trans (h : Speaks key j b resp out) (h' : Speaks key j out.1 out.2 out') :
    Speaks key j b resp out' where
  watched := h'.watched
  reports := h.reports.trans h'.reports
  members := by
    obtain ⟨extra, hresp, hkeep⟩ := h.members
    obtain ⟨extra', hresp', hkeep'⟩ := h'.members
    refine ⟨extra ++ extra', by rw [hresp', hresp, List.append_assoc], fun copy hc => ?_⟩
    rw [merge_append]
    exact hkeep' _ (hkeep copy hc)

theorem Told.speaks (h : Told key j resp out) (h' : Speaks key j out.1 out.2 out') :
    Told key j resp out' := by
  obtain ⟨extra, hresp, htold⟩ := h
  obtain ⟨extra', hresp', hkeep⟩ := h'.members
  refine ⟨extra ++ extra', by rw [hresp', hresp, List.append_assoc], fun copy => ?_⟩
  rw [merge_append]
  exact hkeep _ (htold copy)

theorem Speaks.told (h : Speaks key j b resp out) (h' : Told key j out.2 out') :
    Told key j resp out' := by
  obtain ⟨extra, hresp, -⟩ := h.members
  obtain ⟨extra', hresp', htold⟩ := h'
  refine ⟨extra ++ extra', by rw [hresp', hresp, List.append_assoc], fun copy => ?_⟩
  rw [merge_append]
  exact htold _

end

/-! ## One attribute -/

section

variable {key : CStr} {j : Nat} {b : Board}

/-- A lookup says nothing but the name it has found. -/
theorem reportCookbookID_reports {val : Int} {b' : Board} (hname : key ≠ cstr "CookbookName")
    (h : reportCookbookID val b = some b') : Adds key b.db b'.db := by
  have hsame : Adds key b.db b.db := .of_eq rfl
  unfold reportCookbookID at h
  split at h
  · split at h
    · exact Option.some.inj h ▸ hsame
    · obtain ⟨a, -, h⟩ := Option.bind_eq_some_iff.mp h
      split at h
      · obtain ⟨found, hfound, h⟩ := Option.bind_eq_some_iff.mp h
        have hout : found.1.out = b.db.out :=
          selectForCookbookID_keeps (I := fun s => s.out = b.db.out) (fun _ _ _ _ hs => hs) rfl
            hfound
        cases hfind : found.2 with
        | none =>
            rw [hfind] at h
            obtain rfl := Option.some.inj h
            exact .of_eq hout
        | some name =>
            rw [hfind] at h
            obtain rfl := Option.some.inj h
            refine .of_report (fun m hm => ?_) (congrArg (· ++ _) hout)
            exact List.mem_singleton.mp hm ▸ hname.symm
      · exact Option.some.inj h ▸ hsame
  · exact Option.some.inj h ▸ hsame

/-- The item of a number is its value. -/
theorem attrItem_shown {k : Nat} {a : CloudAttr} {made : Board × Option CJson} (ha : a.isNumber)
    (h : attrItem k a b = some made) : made.2 = some a.shown := by
  have hstruct : a.cloudValueType ≠ .struct := by
    rcases ha.2 with ht | ht <;> rw [ht] <;> decide
  unfold attrItem at h
  rw [if_neg hstruct] at h
  split at h
  · cases h
  · rcases ha.2 with ht | ht
    · simp only [ht] at h
      have hshown : a.shown = .number (cloudVal a.bytes) := if_neg (by rw [ht]; decide)
      rw [hshown]
      split at h
      · obtain ⟨b', -, rfl⟩ := Option.map_eq_some_iff.mp h
        rfl
      · obtain rfl := Option.some.inj h
        rfl
    · simp only [ht] at h
      obtain rfl := Option.some.inj h
      exact congrArg some (if_pos ht).symm

theorem attrItem_reports {k : Nat} {a : CloudAttr} {made : Board × Option CJson}
    (hname : key ≠ cstr "CookbookName") (h : attrItem k a b = some made) :
    Adds key b.db made.1.db := by
  rcases attrItem_cases h with ⟨hb, -⟩ | ⟨-, -, -, hb, -⟩ | ⟨-, -, -, hid⟩
  · exact .of_eq (by rw [hb])
  · exact .of_eq (by rw [hb, Board.setValue_db])
  · exact reportCookbookID_reports hname hid

/-- **A report of one attribute** leaves the watched one alone.  It says nothing of its
key if it is a report of another, and says what is stored if it is not. -/
theorem getAttrReportValue_speaks {k : Nat} {resp : Members} {out : Board × Members}
    (hw : Watched key j b.dev.attr) (h : getAttrReportValue k b resp = some out) :
    Speaks key j b resp out ∧ out.1.dev.attr[j]? = b.dev.attr[j]? ∧
      (k = j → Told key j resp out) := by
  have hvisit := getAttrReportValue_visit h
  obtain ⟨a, ha, hkey, hnum⟩ := hw.number
  have hstays : out.1.dev.attr[j]? = some a := by
    refine hvisit.same j a ha hw.notName fun _ => ?_
    rcases hnum.2 with ht | ht <;> rw [ht] <;> decide
  have hvalue : ∀ copy : Copy, copy key = some a.shown → UpToDate key j out.1 copy := by
    intro copy hc a' ha'
    rw [← Option.some.inj (hstays.symm.trans ha'), hc]
  have hwatched := hw.congr hvisit.kept.sameLayout
  obtain ⟨c, hc, ⟨hrep, rfl⟩ | ⟨-, made, hmade, rfl⟩⟩ := getAttrReportValue_cases h
  · refine ⟨.refl hw, rfl, ?_⟩
    rintro rfl
    obtain rfl := Option.some.inj (ha.symm.trans hc)
    exact absurd hnum.1 (by rw [hrep]; decide)
  · have hreports : Adds key b.db
        (if made.2.isSome then made.1.noteReported k else made.1).db := by
      have hadds := attrItem_reports hw.apart hmade
      split
      · exact hadds
      · exact hadds
    rcases eq_or_ne k j with rfl | hne
    · obtain rfl := Option.some.inj (ha.symm.trans hc)
      have hitem := attrItem_shown hnum hmade
      have htold : ∀ copy, UpToDate key k
          (if made.2.isSome then made.1.noteReported k else made.1)
          (merge copy (made.2.map fun item => (a.cloudKey, item)).toList) := by
        intro copy
        refine hvalue _ ?_
        rw [hitem, hkey]
        exact merge_singleton
      exact ⟨⟨hwatched, hreports, _, rfl, fun copy _ => htold copy⟩, hstays.trans ha.symm,
        fun _ => ⟨_, rfl, htold⟩⟩
    · have hsilent : Silent key (made.2.map fun item => (c.cloudKey, item)).toList := by
        intro m hm
        obtain ⟨item, -, rfl⟩ := Option.map_eq_some_iff.mp (Option.mem_toList.mp hm)
        exact fun hck => hne (hw.own k c hc hck)
      refine ⟨⟨hwatched, hreports, _, rfl, fun copy hcopy => hvalue _ ?_⟩, hstays.trans ha.symm,
        fun hj => absurd hj hne⟩
      rw [hsilent.merge]
      exact hcopy a ha

/-- The push events are no properties. -/
theorem getAttrReportEvent_reports {a : CloudAttr} {value : Option UInt8} {eventAll : Bool}
    {events : List Report} (h : getAttrReportEvent a value eventAll = some events) :
    Hushed key events := by
  have hpush : ∀ event, cookPush event a value eventAll = some events → Hushed key events := by
    intro event hp
    unfold cookPush at hp
    obtain ⟨v, -, hp⟩ := Option.bind_eq_some_iff.mp hp
    split at hp
    · obtain ⟨old, -, hp⟩ := Option.bind_eq_some_iff.mp hp
      obtain ⟨new, -, hp⟩ := Option.bind_eq_some_iff.mp hp
      split at hp
      · obtain rfl := Option.some.inj hp
        exact fun r hr => List.mem_singleton.mp hr ▸ .nil
      · exact Option.some.inj hp ▸ .nil
    · exact Option.some.inj hp ▸ .nil
  unfold getAttrReportEvent at h
  split at h
  · exact Option.some.inj h ▸ .nil
  · split at h
    · exact Option.some.inj h ▸ .nil
    · split at h
      · exact hpush _ h
      · split at h
        · exact hpush _ h
        · split at h
          · obtain ⟨old, -, h⟩ := Option.bind_eq_some_iff.mp h
            obtain ⟨new, -, h⟩ := Option.bind_eq_some_iff.mp h
            split at h
            · obtain rfl := Option.some.inj h
              exact fun r hr => List.mem_singleton.mp hr ▸ .nil
            · exact Option.some.inj h ▸ .nil
          · exact Option.some.inj h ▸ .nil

/-- What happened before the part: events, and what the part itself makes good. -/
theorem Speaks.after {b₁ : Board} {resp : Members} {out : Board × Members} {events : List Report}
    (h : Speaks key j b₁ resp out) (hout : b₁.db.out = b.db.out ++ events)
    (hevents : Hushed key events)
    (hvalue : b₁.dev.attr[j]? = b.dev.attr[j]? ∨ Told key j resp out) :
    Speaks key j b resp out where
  watched := h.watched
  reports := (Adds.of_hushed hevents hout).trans h.reports
  members := by
    rcases hvalue with hsame | ⟨extra, hresp, htold⟩
    · obtain ⟨extra, hresp, hkeep⟩ := h.members
      refine ⟨extra, hresp, fun copy hc => hkeep copy ?_⟩
      intro a ha
      exact hc a (hsame ▸ ha)
    · exact ⟨extra, hresp, fun copy _ => htold copy⟩

/-- **One record of a payload**: if it is one of the watched attribute, what it writes
is what is said next. -/
theorem sendDataRecord_speaks {value : Nat → UInt8} {i k : Nat} {root : Members}
    {out : Board × Members} (hw : Watched key j b.dev.attr)
    (h : sendDataRecord value i k b root = some out) : Speaks key j b root out := by
  obtain ⟨c, events, mid, hc, hevents, hlen, hmid, hend⟩ := sendDataRecord_cases h
  have hmidw : Speaks key j b root mid := by
    have hlayout : SameLayout b.dev.attr
        ((b.addOut events).setValue k (c.write value i).value).dev.attr :=
      Board.setValue_sameLayout (b := b.addOut events) hc (CloudAttr.write_length hlen)
    obtain ⟨hspeaks, -, htold⟩ := getAttrReportValue_speaks (hw.congr hlayout) hmid
    refine hspeaks.after rfl (getAttrReportEvent_reports hevents) ?_
    rcases eq_or_ne k j with rfl | hne
    · exact Or.inr (htold rfl)
    · exact Or.inl (Board.setValue_get_ne hne.symm)
  cases hend with
  | other hkey => exact hmidw
  | off hkey ha' hc' hoff => exact hmidw
  | nameless hno => exact hmidw
  | named hkey ha' hon hq hout =>
      exact hmidw.trans (getAttrReportValue_speaks hmidw.watched hout).1

end

/-! ## The report paths -/

section

variable {key : CStr} {j : Nat} {b b' : Board}

/-- An object that is reported is posted and told, and an empty one says nothing. -/
theorem reportMsgAllPlatform_members (root : Members) (out : List Report) :
    ∃ last, reportMsgAllPlatform (.object root) out = out ++ last ∧
      last.flatMap Report.posted = root ∧ last.flatMap Report.told = root := by
  cases root with
  | nil => exact ⟨[], (List.append_nil _).symm, rfl, rfl⟩
  | cons m root =>
      exact ⟨[.platform (.object (m :: root))], rfl, List.append_nil _, List.append_nil _⟩

/-- **A frame of the board**: who was up to date before is so when what is posted has
been merged, or what is told. -/
theorem sendDataToCloud_speaks {value : Nat → UInt8} {valueLen : Nat}
    (hw : Watched key j b.dev.attr) (h : sendDataToCloud value valueLen b = some b') :
    ∃ new, b'.db.out = b.db.out ++ new ∧ ∀ copy, UpToDate key j b copy →
      UpToDate key j b' (merge copy (new.flatMap Report.posted)) ∧
        UpToDate key j b' (merge copy (new.flatMap Report.told)) := by
  rw [sendDataToCloud_eq] at h
  obtain ⟨out, hout, rfl⟩ := Option.map_eq_some_iff.mp h
  have hspeaks : Speaks key j b [] out :=
    foldlM_keeps (I := Speaks key j b [])
      (fun s r s' hs hf => hs.trans (sendDataRecord_speaks hs.watched hf)) (.refl hw) hout
  obtain ⟨new, hnew, hhushed⟩ := hspeaks.reports
  obtain ⟨extra, hroot, hkeep⟩ := hspeaks.members
  obtain ⟨last, hlast, hposted, htold⟩ := reportMsgAllPlatform_members out.2 out.1.db.out
  rw [List.nil_append] at hroot
  -- what is said before the object at the end does not count
  have hmerge : ∀ copy members, Silent key members → UpToDate key j b copy →
      UpToDate key j out.1 (merge (merge copy members) out.2) := by
    intro copy members hsilent hc
    rw [hroot]
    exact hkeep _ fun a ha => hsilent.merge.trans (hc a ha)
  refine ⟨new ++ last, ?_, fun copy hc => ⟨?_, ?_⟩⟩
  · show reportMsgAllPlatform (.object out.2) out.1.db.out = _
    rw [hlast, hnew, List.append_assoc]
  · rw [List.flatMap_append, merge_append, hposted]
    exact hmerge copy _ hhushed.posted hc
  · rw [List.flatMap_append, merge_append, htold]
    exact hmerge copy _ hhushed.told hc

theorem sendDataToCloud_watched {value : Nat → UInt8} {valueLen : Nat}
    (hw : Watched key j b.dev.attr) (h : sendDataToCloud value valueLen b = some b') :
    Watched key j b'.dev.attr :=
  hw.congr (@report_keeps_requests (.sendData value valueLen) b b' h).2

/-- A turn of a loop over the attributes, the one for attribute `i`. -/
structure TurnSpeaks (key : CStr) (j i : Nat) (s s' : Board × Members) : Prop where
  speaks : Speaks key j s.1 s.2 s'
  stays : s'.1.dev.attr[j]? = s.1.dev.attr[j]?
  told : i = j → Told key j s.2 s'

theorem getAttrReportValue_turn {i : Nat} {s s' : Board × Members}
    (hw : Watched key j s.1.dev.attr) (h : getAttrReportValue i s.1 s.2 = some s') :
    TurnSpeaks key j i s s' := by
  obtain ⟨hspeaks, hstays, htold⟩ := getAttrReportValue_speaks hw h
  exact ⟨hspeaks, hstays, htold⟩

/-- **A report of every attribute** brings any copy up to date. -/
theorem loop_told {f : Board × Members → Nat → Option (Board × Members)}
    (hturn : ∀ s i s', Watched key j s.1.dev.attr → f s i = some s' → TurnSpeaks key j i s s')
    (hw : Watched key j b.dev.attr) {resp : Members} {out : Board × Members}
    (h : (List.range b.dev.attr.length).foldlM f (b, resp) = some out) :
    Speaks key j b resp out ∧ out.1.dev.attr[j]? = b.dev.attr[j]? ∧ Told key j resp out := by
  have hdone : Speaks key j b resp out ∧ out.1.dev.attr[j]? = b.dev.attr[j]? ∧
      (j < b.dev.attr.length → Told key j resp out) := by
    refine foldlM_range (I := fun i s => Speaks key j b resp s ∧
      s.1.dev.attr[j]? = b.dev.attr[j]? ∧ (j < i → Told key j resp s))
      ⟨.refl hw, rfl, fun hj => absurd hj (Nat.not_lt_zero j)⟩ ?_ h
    rintro i s s' - ⟨hs, hstays, htold⟩ hf
    have hone := hturn s i s' hs.watched hf
    refine ⟨hs.trans hone.speaks, hone.stays.trans hstays, fun hj => ?_⟩
    rcases Nat.lt_succ_iff_lt_or_eq.mp hj with hlt | rfl
    · exact (htold hlt).speaks hone.speaks
    · exact hs.told (hone.told rfl)
  obtain ⟨a, ha, -⟩ := hw.number
  exact ⟨hdone.1, hdone.2.1, hdone.2.2 (List.getElem?_eq_some_iff.mp ha).1⟩

theorem cloudRespGetall_told {resp : Members} {out : Board × Members}
    (hw : Watched key j b.dev.attr) (h : cloudRespGetall b resp = some out) :
    Speaks key j b resp out ∧ out.1.dev.attr[j]? = b.dev.attr[j]? ∧ Told key j resp out :=
  loop_told (fun _ _ _ hs hf => getAttrReportValue_turn hs hf) hw h

theorem cloudRespGet_told {root : CJson} {resp : Members} {out : Board × Members}
    (hw : Watched key j b.dev.attr) (hroot : root.hasObjectItem key = true)
    (h : cloudRespGet root b resp = some out) :
    Speaks key j b resp out ∧ out.1.dev.attr[j]? = b.dev.attr[j]? ∧ Told key j resp out := by
  refine loop_told (fun s i s' hs hf => ?_) hw h
  obtain ⟨a, ha, hf⟩ := Option.bind_eq_some_iff.mp hf
  split at hf
  · exact getAttrReportValue_turn hs hf
  · rename_i hno
    obtain rfl := Option.some.inj hf
    refine ⟨.refl hs, rfl, ?_⟩
    rintro rfl
    obtain ⟨c, hc, hkey, -⟩ := hs.number
    obtain rfl := Option.some.inj (ha.symm.trans hc)
    exact absurd (hkey ▸ hroot) hno

theorem sendAllLoop_told {out : Board × Members} (hw : Watched key j b.dev.attr)
    (h : sendAllLoop b = some out) : Speaks key j b [] out ∧ Told key j [] out := by
  have hloop := loop_told (fun s i s' hs hf => ?_) hw h
  · exact ⟨hloop.1, hloop.2.2⟩
  · obtain ⟨a, -, hf⟩ := Option.bind_eq_some_iff.mp hf
    obtain ⟨events, hevents, hf⟩ := Option.bind_eq_some_iff.mp hf
    have hone : TurnSpeaks key j i (s.1.addOut events, s.2) s' := getAttrReportValue_turn hs hf
    exact ⟨hone.speaks.after rfl (getAttrReportEvent_reports hevents) (Or.inl rfl), hone.stays,
      hone.told⟩

/-- Of the database a connection reports one key. -/
theorem silent_simple {db : HistoryState} (hsimple : key ≠ cstr "CookHistorySimple") :
    Silent key (databaseRespGet (.object [(cstr "CookHistorySimple", .null)]) db) := by
  intro m hm
  obtain ⟨hm, hasked⟩ := List.mem_filter.mp hm
  have hrecipe : (CJson.object [(cstr "CookHistorySimple", .null)]).hasObjectItem
      (cstr "CookRecipe") = false := by decide
  have hhistory : (CJson.object [(cstr "CookHistorySimple", .null)]).hasObjectItem
      (cstr "CookHistory") = false := by decide
  simp only [databaseReports, List.mem_cons, List.not_mem_nil, or_false] at hm
  rcases hm with rfl | rfl | rfl
  · exact absurd hasked (Bool.eq_false_iff.mp hrecipe)
  · exact absurd hasked (Bool.eq_false_iff.mp hhistory)
  · exact hsimple.symm

/-- **A new connection**: any copy is up to date when what is posted has been merged. -/
theorem sendAllToCloud_told (hw : Watched key j b.dev.attr)
    (hsimple : key ≠ cstr "CookHistorySimple") (h : sendAllToCloud b = some b') :
    ∃ new, b'.db.out = b.db.out ++ new ∧
      ∀ copy, UpToDate key j b' (merge copy (new.flatMap Report.posted)) := by
  obtain ⟨out, hout, h⟩ := Option.bind_eq_some_iff.mp h
  obtain rfl := Option.some.inj h
  obtain ⟨hspeaks, extra, hroot, htold⟩ := sendAllLoop_told hw hout
  obtain ⟨new, hnew, hhushed⟩ := hspeaks.reports
  refine ⟨new ++ [.property (.object out.2)] ++ [.property (.object
    (databaseRespGet (.object [(cstr "CookHistorySimple", .null)])
      (out.1.addOut [.property (.object out.2)]).db))], ?_, fun copy => ?_⟩
  · show out.1.db.out ++ _ ++ _ = _
    rw [hnew, List.append_assoc, List.append_assoc, List.append_assoc]
  · rw [List.flatMap_append, List.flatMap_append, List.flatMap_singleton, List.flatMap_singleton,
      merge_append, merge_append]
    intro a ha
    have hdone := htold (merge copy (new.flatMap Report.posted)) a ha
    rw [List.nil_append] at hroot
    rw [← hroot] at hdone
    exact (silent_simple hsimple).merge.trans hdone

end

/-! ## A board with one number -/

def powerBoard : Board :=
  startBoard noRecipes [⟨cstr "SysPower", .num, .attrReportCtrl, 1, 1, [0]⟩]

/-- The payload of a frame that sets it to 1. -/
def powerPayload (k : Nat) : UInt8 := [1, 1].getD k 0

theorem powerBoard_watched : Watched (cstr "SysPower") 0 powerBoard.dev.attr where
  number := ⟨_, rfl, rfl, rfl, Or.inl rfl⟩
  own := by
    intro k a ha _
    obtain ⟨hk, -⟩ := List.getElem?_eq_some_iff.mp ha
    exact Nat.lt_one_iff.mp hk
  apart := by decide

end X50
