import BlockScript.Proofs.Instruction.Reading

namespace BlockScript.Instruction

/-- A field keeps its content or has a new one by its parameter, which may be missing. -/
inductive Field.Becomes (field : Field) : Option Param → Field → Prop
  | replaced {value : Param} {new : Field} (hnew : field.Reads value new) :
    Becomes field (some value) new
  | kept {given : Option Param} (hmisfit : ∀ value ∈ given, ∀ new, ¬ field.Reads value new) :
    Becomes field given field

def Field.merge (field : Field) (given : Option Param) : Field :=
  (given.bind field.read?).getD field

/-- The fields of an instruction under the names of their parameters. -/
def fields : Instruction → List (String × Field)
  | loop times => [("times", .count times)]
  | wait duration => [("duration", .seconds duration)]
  | move axis distance duration =>
    [("axis", .axis axis), ("distance", .amount distance), ("duration", .seconds duration)]
  | rotate axis angle duration =>
    [("axis", .axis axis), ("angle", .amount angle), ("duration", .seconds duration)]
  | scale factor duration => [("scale", .amount factor), ("duration", .seconds duration)]
  | paint color => [("color", .color color)]
  | _ => []

/-- An instruction has a field under a name, and the value is one for it. -/
def Takes (i : Instruction) (entry : String × Param) : Prop :=
  ∃ field ∈ i.fields, field.1 = entry.1 ∧ ∃ new, field.2.Reads entry.2 new

def takes (i : Instruction) (entry : String × Param) : Bool :=
  i.fields.any fun field => field.1 = entry.1 && (field.2.read? entry.2).isSome

/-- An instruction after the parameters that are given under some names: it is of the same type,
and each field is what its parameter makes of it. -/
structure Merged (given : String → Option Param) (i j : Instruction) : Prop where
  opcode : j.opcode? = i.opcode?
  typeName : j.typeName = i.typeName
  fields : List.Forall₂ (fun old new => new.1 = old.1 ∧ old.2.Becomes (given old.1) new.2)
    i.fields j.fields

variable {i j k : Instruction} {given given' : String → Option Param} {name : String}
  {value : Param} {entries : List (String × Param)} {ps : Params}

@[simp] theorem Field.merge_none (field : Field) : field.merge none = field := rfl

theorem Field.merge_cases (field : Field) (given : Option Param) :
    field.merge given = field ∨ ∃ value, field.read? value = some (field.merge given) := by
  cases hread : given.bind field.read? with
  | none => exact .inl (by rw [merge, hread, Option.getD_none])
  | some new =>
    obtain ⟨value, _, hvalue⟩ := Option.bind_eq_some_iff.1 hread
    exact .inr ⟨value, by rw [merge, hread, Option.getD_some, hvalue]⟩

theorem Field.read?_of_read? {field new : Field} (h : field.read? value = some new) :
    new.read? = field.read? := by
  cases field <;>
    · obtain ⟨_, _, rfl⟩ := Option.map_eq_some_iff.1 h
      rfl

theorem Field.read?_merge (field : Field) (given : Option Param) :
    (field.merge given).read? = field.read? := by
  rcases field.merge_cases given with hkept | ⟨value, hread⟩
  · rw [hkept]
  · exact read?_of_read? hread

theorem Field.merge_merge (field : Field) (given : Option Param) :
    (field.merge given).merge given = field.merge given := by
  rw [merge, read?_merge, merge]
  cases given.bind field.read? <;> rfl

theorem Field.becomes_iff {field new : Field} {given : Option Param} :
    field.Becomes given new ↔ new = field.merge given := by
  rw [merge]
  cases hread : given.bind field.read? with
  | none =>
    have hmisfit : ∀ value ∈ given, ∀ new, ¬ field.Reads value new := by
      intro value hvalue new hnew
      have hnone := Option.bind_eq_none_iff.1 hread value hvalue
      rw [hnew.read?_eq] at hnone
      contradiction
    rw [Option.getD_none]
    constructor
    · intro h
      cases h with
      | replaced hnew => exact absurd hnew (hmisfit _ rfl _)
      | kept => rfl
    · rintro rfl
      exact .kept hmisfit
  | some fresh =>
    obtain ⟨value, rfl, hvalue⟩ := Option.bind_eq_some_iff.1 hread
    rw [Option.getD_some]
    constructor
    · intro h
      cases h with
      | replaced hnew => exact Option.some.inj (hnew.read?_eq.symm.trans hvalue)
      | kept hmisfit => exact absurd (reads_of_read? hvalue) (hmisfit value rfl fresh)
    · rintro rfl
      exact .replaced (reads_of_read? hvalue)

theorem merged_iff : Merged given i j ↔ j.opcode? = i.opcode? ∧ j.typeName = i.typeName ∧
    j.fields = i.fields.map fun field => (field.1, field.2.merge (given field.1)) := by
  have hbecomes : (fun old new : String × Field => new.1 = old.1 ∧
      old.2.Becomes (given old.1) new.2) =
      fun old new => (old.1, old.2.merge (given old.1)) = new := by
    funext old new
    rw [Field.becomes_iff, eq_comm (b := new), Prod.ext_iff]
  have hfields : List.Forall₂ (fun old new : String × Field => new.1 = old.1 ∧
      old.2.Becomes (given old.1) new.2) i.fields j.fields ↔
      j.fields = i.fields.map fun field => (field.1, field.2.merge (given field.1)) := by
    rw [hbecomes, ← List.forall₂_map_left_iff, List.forall₂_eq_eq_eq, eq_comm]
  rw [← hfields]
  constructor
  · intro h
    exact ⟨h.opcode, h.typeName, h.fields⟩
  · intro ⟨hopcode, htype, hfields⟩
    exact ⟨hopcode, htype, hfields⟩

theorem Merged.fields_eq (h : Merged given i j) :
    j.fields = i.fields.map fun field => (field.1, field.2.merge (given field.1)) :=
  (merged_iff.1 h).2.2

/-- The type of an instruction and its fields are all that there is to it. -/
theorem eq_of_fields (hopcode : i.opcode? = j.opcode?) (htype : i.typeName = j.typeName)
    (hfields : i.fields = j.fields) : i = j := by
  cases i <;> cases j <;> simp_all [opcode?, typeName, fields]

theorem Merged.unique (hj : Merged given i j) (hk : Merged given i k) : j = k :=
  eq_of_fields (hj.opcode.trans hk.opcode.symm) (hj.typeName.trans hk.typeName.symm)
    (hj.fields_eq.trans hk.fields_eq.symm)

theorem Merged.refl (i : Instruction) : Merged (fun _ => none) i i :=
  merged_iff.2 ⟨rfl, rfl, by simp⟩

theorem Merged.congr (h : Merged given i j)
    (hsame : ∀ field ∈ i.fields, given field.1 = given' field.1) : Merged given' i j := by
  refine merged_iff.2 ⟨h.opcode, h.typeName, h.fields_eq.trans ?_⟩
  exact List.map_congr_left fun field hfield => by rw [hsame field hfield]

theorem Merged.again (h : Merged given i j) : Merged given j j := by
  refine merged_iff.2 ⟨rfl, rfl, ?_⟩
  rw [h.fields_eq, List.map_map]
  exact List.map_congr_left fun field _ => by rw [Function.comp_apply, Field.merge_merge]

theorem Merged.trans (hj : Merged given i j) (hk : Merged given' j k)
    (hapart : ∀ name, given name = none ∨ given' name = none) :
    Merged (fun name => (given name).or (given' name)) i k := by
  refine merged_iff.2 ⟨hk.opcode.trans hj.opcode, hk.typeName.trans hj.typeName, ?_⟩
  rw [hk.fields_eq, hj.fields_eq, List.map_map]
  refine List.map_congr_left fun field _ => ?_
  rcases hapart field.1 with hnone | hnone <;> simp [hnone]

theorem merged_of_set? (h : i.set? name value = some j) :
    Merged (fun other => if other = name then some value else none) i j := by
  unfold set? at h
  split at h
  case h_12 => contradiction
  all_goals
    obtain ⟨_, hread, rfl⟩ := Option.map_eq_some_iff.1 h
    exact merged_iff.2 ⟨rfl, rfl, by simp [fields, Field.merge, Field.read?, hread]⟩

theorem isSome_set? (i : Instruction) (name : String) (value : Param) :
    (i.set? name value).isSome = i.takes (name, value) := by
  unfold set?
  split
  case h_12 => cases i <;> simp_all [takes, fields, eq_comm]
  all_goals simp [takes, fields, Field.read?, -Option.map_bind]

theorem takes_iff {entry : String × Param} : i.takes entry = true ↔ i.Takes entry := by
  rw [takes, List.any_eq_true]
  refine exists_congr fun field => and_congr_right fun _ => ?_
  rw [Bool.and_eq_true, decide_eq_true_eq, Option.isSome_iff_exists]
  exact and_congr_right fun _ => exists_congr fun new => Field.read?_eq_some_iff

instance (i : Instruction) : DecidablePred i.Takes :=
  fun _ => decidable_of_iff _ takes_iff

theorem Merged.takes (h : Merged given i j) (entry : String × Param) :
    j.takes entry = i.takes entry := by
  rw [Instruction.takes, h.fields_eq, List.any_map, Instruction.takes]
  congr 1
  funext field
  rw [Function.comp_apply, Field.read?_merge]

theorem merged_of_not_takes {entry : String × Param} (h : i.takes entry = false) :
    Merged (fun other => if other = entry.1 then some entry.2 else none) i i := by
  refine merged_iff.2 ⟨rfl, rfl, ?_⟩
  refine (List.map_id' _).symm.trans (List.map_congr_left fun field hfield => ?_)
  split
  · next hname =>
    have hread : field.2.read? entry.2 = none := by
      simpa [hname] using List.any_eq_false.1 h field hfield
    rw [Field.merge, Option.bind_some, hread, Option.getD_none]
  · rfl

/-- One entry gives its own field what it says, and it is reported if no field takes it. -/
theorem setOrNote_eq (i : Instruction) (entry : String × Param) :
    Merged (fun other => if other = entry.1 then some entry.2 else none) i
        (i.setOrNote entry).value ∧
      (i.setOrNote entry).notices =
        if i.takes entry then [] else [.ignoredParameter entry.1 entry.2 i.typeName] := by
  have htakes := isSome_set? i entry.1 entry.2
  rw [setOrNote]
  split
  · next j hset =>
    rw [hset] at htakes
    exact ⟨merged_of_set? hset, (if_pos htakes.symm).symm⟩
  · next hnone =>
    rw [hnone] at htakes
    exact ⟨merged_of_not_takes htakes.symm, by rw [← htakes]; rfl⟩

theorem merged_configureAll (hnames : (entries.map (·.1)).Nodup) :
    Merged (entries.lookup ·) i (i.configureAll entries).value := by
  induction entries generalizing i with
  | nil => exact .refl i
  | cons entry rest ih =>
    obtain ⟨hfresh, hrest⟩ := List.nodup_cons.1 hnames
    have hfirst := (setOrNote_eq i entry).1
    have hmerged := ih (i := (i.setOrNote entry).value) hrest
    rw [configureAll, List.foldlM_cons, Logged.value_bind]
    -- The names are distinct, so that no later entry touches the field of the first one.
    refine (hfirst.trans hmerged fun name => ?_).congr fun field _ => ?_
    · by_cases hname : name = entry.1
      · subst hname
        refine .inr (List.lookup_eq_none_iff.2 fun other hother => ?_)
        have hne : entry.1 ≠ other.1 := fun heq => hfresh (List.mem_map.2 ⟨other, hother, heq.symm⟩)
        simpa using hne
      · exact .inl (if_neg hname)
    · rw [List.lookup_cons]
      by_cases hname : field.1 = entry.1
      · simp [hname]
      · simp [hname, beq_false_of_ne hname]

theorem notices_configureAll (i : Instruction) (entries : List (String × Param)) :
    (i.configureAll entries).notices = (entries.filter (!i.takes ·)).map fun entry =>
      .ignoredParameter entry.1 entry.2 i.typeName := by
  induction entries generalizing i with
  | nil => rfl
  | cons entry rest ih =>
    obtain ⟨hmerged, hnotices⟩ := setOrNote_eq i entry
    have hrest := ih (i.setOrNote entry).value
    rw [configureAll] at hrest ⊢
    rw [List.foldlM_cons, Logged.notices_bind, hrest, hnotices, hmerged.typeName,
      funext hmerged.takes, List.filter_cons]
    cases i.takes entry <;> rfl

theorem nodup_names (hentries : entries.Perm ps.toList) : (entries.map (·.1)).Nodup := by
  refine (hentries.map _).nodup_iff.2 (List.pairwise_map.2 (ps.distinct_keys_toList.imp ?_))
  exact fun hne heq => hne (Std.LawfulEqOrd.compare_eq_iff_eq.2 heq)

theorem lookup_of_perm (hentries : entries.Perm ps.toList) (name : String) :
    entries.lookup name = ps[name]? := by
  cases hvalue : ps[name]? with
  | none =>
    refine List.lookup_eq_none_iff.2 fun entry hentry => ?_
    have hstored := Std.ExtTreeMap.mem_toList_iff_getElem?_eq_some.1 (hentries.mem_iff.1 hentry)
    have hne : name ≠ entry.1 := by
      rintro rfl
      rw [hvalue] at hstored
      contradiction
    simpa using hne
  | some value =>
    have hentry := hentries.mem_iff.2 (Std.ExtTreeMap.mem_toList_iff_getElem?_eq_some.2 hvalue)
    obtain ⟨before, after, rfl⟩ := List.append_of_mem hentry
    refine List.lookup_eq_some_iff.2 ⟨before, after, rfl, fun other hother => ?_⟩
    have hnames := nodup_names hentries
    rw [List.map_append, List.nodup_append] at hnames
    have hne := hnames.2.2 _ (List.mem_map_of_mem hother) name (List.mem_cons_self ..)
    simpa using hne.symm

/-- In whatever order the parameters of a map come, each field is what the one of its name makes of
it. -/
theorem merged_of_perm (hentries : entries.Perm ps.toList) :
    Merged (ps[·]?) i (i.configureAll entries).value :=
  (merged_configureAll (nodup_names hentries)).congr fun field _ => lookup_of_perm hentries field.1

theorem merged_configure (i : Instruction) (ps : Params) :
    Merged (ps[·]?) i (i.configure ps).value :=
  merged_of_perm (.refl _)

theorem filter_not_takes (i : Instruction) (entries : List (String × Param)) :
    entries.filter (!i.takes ·) = entries.filter fun entry => ¬ i.Takes entry := by
  refine List.filter_congr fun entry _ => ?_
  rw [Bool.eq_iff_iff, decide_eq_true_eq, ← takes_iff, Bool.not_eq_true', Bool.not_eq_true]

/-- It does not matter in which order the parameters come, nor whether some are given under names
that the instruction does not have. Each field has a new content by the parameter of its name if
that is one for it, and stays as it is otherwise; all come again without effect. Exactly the
entries that no field takes are reported, each of them once. -/
theorem configure_any_order (i : Instruction) {ps : Params} {entries again : List (String × Param)}
    (hentries : entries.Perm ps.toList) (hagain : again.Perm ps.toList) :
    let merged := i.configureAll entries
    merged.value = (i.configure ps).value ∧ Merged (ps[·]?) i merged.value ∧
      (∀ others : Params, (∀ field ∈ i.fields, others[field.1]? = ps[field.1]?) →
        (i.configure others).value = merged.value) ∧
      (merged.value.configureAll again).value = merged.value ∧
      merged.notices = (entries.filter fun entry => ¬ i.Takes entry).map (fun entry =>
        .ignoredParameter entry.1 entry.2 i.typeName) ∧
      merged.notices.Perm (i.configure ps).notices := by
  intro merged
  have hmerged : Merged (ps[·]?) i merged.value := merged_of_perm hentries
  have hothers : ∀ others : Params, (∀ field ∈ i.fields, others[field.1]? = ps[field.1]?) →
      (i.configure others).value = merged.value := by
    intro others hsame
    exact ((merged_configure i others).congr hsame).unique hmerged
  have hnotices := notices_configureAll i entries
  refine ⟨(hothers ps fun _ _ => rfl).symm, hmerged, hothers, ?_, ?_, ?_⟩
  · exact (merged_of_perm hagain).unique hmerged.again
  · rw [← filter_not_takes]
    exact hnotices
  · rw [hnotices, configure, notices_configureAll]
    exact (hentries.filter _).map _

/-- A value for every field, as a number or as a text, and one under a name that no field has. -/
def fitting : Params :=
  .ofList [("duration", .text " 2 "), ("axis", .text "Y"), ("distance", .number 2.5),
    ("angle", .text " -9e1"), ("scale", .integer 3), ("times", .text "2.5"),
    ("color", .text "#1a2"), ("speed", .integer 3)] compare

def misfitting : Params :=
  .ofList [("duration", .text "soon"), ("axis", .integer 1), ("distance", .flag true)] compare

theorem configure_any_order_fitting :
    let merged (opcode : Opcode) (ps : Params) :=
      (authoringDefault opcode).configureAll ps.toList.reverse
    (merged .move fitting).value = move .y 2.5 2 ∧
      (merged .rotate fitting).value = rotate .y (-90) 2 ∧
      (merged .scale fitting).value = scale 3 2 ∧ (merged .loop fitting).value = loop 3 ∧
      (merged .paint fitting).value = paint ⟨0x11, 0xaa, 0x22⟩ ∧
      Merged (fitting[·]?) (authoringDefault .move) (merged .move fitting).value ∧
      ((merged .move fitting).value.configureAll fitting.toList).value =
        (merged .move fitting).value ∧
      (merged .move misfitting).value = authoringDefault .move ∧
      (merged .move misfitting).value =
        ((authoringDefault .move).configure misfitting).value ∧
      (merged .move misfitting).notices.map Notice.message =
        ["ignoring parameter duration=String(\"soon\") on ACTION_MOVE",
          "ignoring parameter distance=Bool(true) on ACTION_MOVE",
          "ignoring parameter axis=Integer(1) on ACTION_MOVE"] := by
  intro merged
  obtain ⟨_, hmerged, _, hagain, _, _⟩ := configure_any_order (authoringDefault .move)
    (List.reverse_perm fitting.toList) (.refl _)
  obtain ⟨hsame, _, _, _, _, _⟩ := configure_any_order (authoringDefault .move)
    (List.reverse_perm misfitting.toList) (.refl _)
  exact ⟨by decide +kernel, by decide +kernel, by decide +kernel, by decide +kernel,
    by decide +kernel, hmerged, hagain, by decide +kernel, hsame, by decide +kernel⟩

end BlockScript.Instruction
