import Rulebook.Proofs.Json.Values

/-!
# Values and settings read back

A text is read as a whole. What was written is read as it was: values without floats, unless they
nest too deep, and records with all of their fields, which stand under their names. Whatever is read
as a value without floats can be written again.
-/
namespace Rulebook.Json

open Reader

theorem read?_write_of_reads {α : Type} [Format α] {a : α} {tree : Tree}
    (h : Reads (Format.chars a) tree) : read? (write a) = (Format.decode? tree : Option α) := by
  have whole := h [] (by simp)
  rw [List.append_nil] at whole
  simp [read?, write, Tree.parse?, whole]

theorem read?_write_value {v : Value} (ordered : v.InKeyOrder) (free : v.FloatFree) :
    read? (write v) = if v.depth ≤ nestingLimit then some v else none := by
  obtain ⟨tree, h⟩ := exists_depicts ordered free
  rw [read?_write_of_reads h.reads]
  exact h.decodes nestingLimit

/-- A text that is read as a value without floats may be replaced by the one that is written. -/
theorem read?_write_of_read? {text : String} {v : Value} (h : read? text = some v)
    (free : v.FloatFree) : read? (write v) = some v := by
  obtain ⟨_, -, hv⟩ := Option.bind_eq_some_iff.mp h
  obtain ⟨ordered, hdepth⟩ := inKeyOrder_of_valueOf? hv
  rw [read?_write_value ordered free, if_pos hdepth]

theorem mapM_eq_some {α β : Type} {f : α → Option β} {g : α → β} {as : List α}
    (h : ∀ a ∈ as, f a = some (g a)) : as.mapM f = some (as.map g) := by
  induction as with
  | nil => rfl
  | cons a as ih =>
    obtain ⟨ha, has⟩ := List.forall_mem_cons.mp h
    simp [ha, ih has]

/-- A key that occurs once picks out its field. -/
theorem filter_fst_eq {fields : List (String × Tree)} (once : (fields.map Prod.fst).Nodup)
    {f : String × Tree} (hf : f ∈ fields) : fields.filter (fun g => g.1 = f.1) = [f] := by
  induction fields with
  | nil => exact nomatch hf
  | cons g fields ih =>
    obtain ⟨free, once⟩ := List.nodup_cons.mp once
    rcases List.mem_cons.mp hf with rfl | hf
    · have none : fields.filter (fun g => g.1 = f.1) = [] := by
        refine List.filter_eq_nil_iff.mpr fun g hg heq => free ?_
        exact List.mem_map.mpr ⟨g, hg, by simpa using heq⟩
      simp [none]
    · have hne : g.1 ≠ f.1 := fun heq => free (heq ▸ List.mem_map_of_mem hf)
      simp [hne, ih once hf]

/-- The object with these fields. -/
def objectOf (fields : List (String × Tree)) : Tree := .object (fields.map fun f => (some f.1, f.2))

/-- An object with the fields of a record has each of them once. -/
theorem recordOf?_objectOf {names : List String} {fields : List (String × Tree)}
    (hnames : fields.map Prod.fst = names) (once : names.Nodup) :
    recordOf? names (objectOf fields) = some (fields.map fun f => some f.2) := by
  subst hnames
  have keyed : (fields.map fun f => (some f.1, f.2)).any (fun f => f.1.isNone) = false := by simp
  rw [objectOf, recordOf?, if_neg (by rw [keyed]; decide)]
  refine List.mapM_map.trans (mapM_eq_some fun f hf => ?_)
  have single : (fields.map fun g => (some g.1, g.2)).filter (fun g => g.1 = some f.1) =
      [(some f.1, f.2)] := by
    simp [List.filter_map, Function.comp_def, filter_fst_eq once hf]
  simp only [Function.comp_apply, single]

theorem reads_objectOf {texts : List (String × List Char)} {fields : List (String × Tree)}
    (h : List.Forall₂ (fun t f => f.1 = t.1 ∧ Reads t.2 f.2) texts fields) :
    Reads (objectChars texts) (objectOf fields) :=
  reads_objectChars (List.forall₂_map_right_iff.mpr (h.imp fun _ _ h => ⟨congrArg some h.1, h.2⟩))

theorem read?_write_category (c : Category) : read? (write c) = some c := by
  let fields : List (String × Tree) := [
    ("name", .string (some c.name)),
    ("description", .string (some c.description)),
    ("sequence_number", .number (.ofInt c.sequence.toInt))]
  have reads : Reads (Format.chars c) (objectOf fields) := reads_objectOf <|
    .cons ⟨rfl, reads_string c.name⟩ <| .cons ⟨rfl, reads_string c.description⟩ <|
    .cons ⟨rfl, reads_intChars c.sequence.toInt⟩ .nil
  have record : recordOf? ["name", "description", "sequence_number"] (objectOf fields) =
      some (fields.map fun f => some f.2) := recordOf?_objectOf rfl (by decide)
  rw [read?_write_of_reads reads]
  simp only [Format.decode?, record]
  simp [fields, needed, string?, int32?_ofInt]

theorem read?_write_config (c : Config) : read? (write c) = some c := by
  let fields : List (String × Tree) := [
    ("default_priority", .number (.ofInt c.priority.toInt)),
    ("default_category", .string (some c.category)),
    ("category_priority", .number (.ofInt c.categoryPriority.toInt)),
    ("cache_expressions", .bool c.cacheExpressions)]
  have reads : Reads (Format.chars c) (objectOf fields) := reads_objectOf <|
    .cons ⟨rfl, reads_intChars c.priority.toInt⟩ <| .cons ⟨rfl, reads_string c.category⟩ <|
    .cons ⟨rfl, reads_intChars c.categoryPriority.toInt⟩ <|
    .cons ⟨rfl, reads_boolChars c.cacheExpressions⟩ .nil
  have record : recordOf?
      ["default_priority", "default_category", "category_priority", "cache_expressions"]
      (objectOf fields) = some (fields.map fun f => some f.2) := recordOf?_objectOf rfl (by decide)
  rw [read?_write_of_reads reads]
  simp only [Format.decode?, record]
  simp [fields, defaulted, string?, bool?, int32?_ofInt]

theorem read?_write_groupOperator (op : GroupOperator) : read? (write op) = some op := by
  cases op with
  | all => exact (read?_write_of_reads (reads_string "And")).trans (by decide)
  | any => exact (read?_write_of_reads (reads_string "Or")).trans (by decide)

theorem read?_write_resultType (type : ResultType) : read? (write type) = some type := by
  rw [read?_write_of_reads (reads_string type.word)]
  cases type <;> decide

/-- What is written is read back: a value without floats that does not nest too deep, and both
records with all of their fields. -/
theorem read?_write :
    (∀ v : Value, v.InKeyOrder → v.FloatFree → v.depth ≤ nestingLimit → read? (write v) = some v) ∧
      (∀ c : Category, read? (write c) = some c) ∧ ∀ c : Config, read? (write c) = some c := by
  refine ⟨fun v ordered free hdepth => ?_, read?_write_category, read?_write_config⟩
  rw [read?_write_value ordered free, if_pos hdepth]

/-- Integers at both ends of their range, an escaped key and empty parts. -/
theorem read?_write_extremes :
    let v : Value := .map [
      ("", .list []),
      ("\n\x01\x22", .list [.int Int64.minValue, .null, .bool true, .string "é\\", .map []]),
      ("z", .int Int64.maxValue)]
    v.InKeyOrder ∧ v.FloatFree ∧ v.depth ≤ nestingLimit ∧
      write v = "\x7b\x22\x22:[],\x22\\n\\u0001\\\x22\x22:" ++
        "[-9223372036854775808,null,true,\x22é\\\\\x22,\x7b\x7d]," ++
        "\x22z\x22:9223372036854775807\x7d" ∧
      read? (write v) = some v := by
  intro v
  have ordered : v.InKeyOrder := by
    have parts : ∀ w ∈ [Value.int Int64.minValue, .null, .bool true, .string "é\\", .map []],
        w.InKeyOrder := List.forall_mem_cons.mpr ⟨.int _, List.forall_mem_cons.mpr ⟨.null,
      List.forall_mem_cons.mpr ⟨.bool _, List.forall_mem_cons.mpr ⟨.string _,
      List.forall_mem_singleton.mpr (.map .nil (by simp))⟩⟩⟩⟩
    exact .map (by decide) (List.forall_mem_cons.mpr ⟨.list (by simp),
      List.forall_mem_cons.mpr ⟨.list parts, List.forall_mem_singleton.mpr (.int _)⟩⟩)
  have free : v.FloatFree := by
    have parts : ∀ w ∈ [Value.int Int64.minValue, .null, .bool true, .string "é\\", .map []],
        w.FloatFree := List.forall_mem_cons.mpr ⟨.int _, List.forall_mem_cons.mpr ⟨.null,
      List.forall_mem_cons.mpr ⟨.bool _, List.forall_mem_cons.mpr ⟨.string _,
      List.forall_mem_singleton.mpr (.map (by simp))⟩⟩⟩⟩
    exact .map (List.forall_mem_cons.mpr ⟨.list (by simp),
      List.forall_mem_cons.mpr ⟨.list parts, List.forall_mem_singleton.mpr (.int _)⟩⟩)
  have hdepth : v.depth ≤ nestingLimit := by decide
  exact ⟨ordered, free, hdepth, by decide, read?_write.1 v ordered free hdepth⟩

end Rulebook.Json
