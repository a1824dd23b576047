import Mathlib.Data.List.Infix
import Mathlib.Data.List.Permutation
import Rulebook.Facts
import Rulebook.Proofs.KeyMap

/-!
# Facts by path

A dotted path of names that hold no dots is taken apart into these names. What is stored at a path
is found there, and a lookup descends from map to map, one field after the other.

What a write at one path does to a read at another is settled by how the two paths lie to each
other. From the end of the written path on, the new value is read. On the way there are maps, which
keep what they had beside that way. A path that takes another way is read as before, and two such
writes may change places. The facts are one more map around all others, so that the first segment of
a path is no special case.
-/
namespace Rulebook

namespace Path

/-- Names with dots between them. -/
def join (first : String) (others : List String) : String :=
  String.ofList (first.toList ++ others.flatMap fun n => '.' :: n.toList)

theorem splitDots_of_no_dot {cs : List Char} (h : '.' ∉ cs) : splitDots cs = [cs] := by
  induction cs with
  | nil => rfl
  | cons c cs ih =>
    have hc : c ≠ '.' := fun hc => h (by simp [hc])
    rw [splitDots, if_neg hc, ih fun hmem => h (by simp [hmem])]

/-- A part ends at the first dot. -/
theorem splitDots_append {cs : List Char} (h : '.' ∉ cs) (rest : List Char) :
    splitDots (cs ++ '.' :: rest) = cs :: splitDots rest := by
  induction cs with
  | nil => simp [splitDots]
  | cons c cs ih =>
    have hc : c ≠ '.' := fun hc => h (by simp [hc])
    rw [List.cons_append, splitDots, if_neg hc, ih fun hmem => h (by simp [hmem])]

theorem segments_join {first : String} {others : List String}
    (h : ∀ n ∈ first :: others, '.' ∉ n.toList) :
    segments (join first others) = first :: others := by
  rw [segments, join, String.toList_ofList]
  induction others generalizing first with
  | nil =>
    rw [List.flatMap_nil, List.append_nil, splitDots_of_no_dot (h first (by simp))]
    simp
  | cons n others ih =>
    rw [List.flatMap_cons, List.cons_append, splitDots_append (h first (by simp)),
      List.map_cons, ih fun m hm => h m (by simp [hm]), String.ofList_toList]

end Path

namespace Value

/-- The field of a map; nothing else has fields. -/
def field? (v : Value) (name : String) : Option Value :=
  match v with
  | .map entries => Entries.get? name entries
  | _ => none

/-- The first segment is looked up, every other one is a field of what was found before. -/
theorem getAt_cons (first : String) (others : List String) (entries : List (String × Value)) :
    getAt (first :: others) entries = (Entries.get? first entries).bind (others.foldlM field?) := by
  induction others generalizing first entries with
  | nil =>
    rw [getAt]
    cases Entries.get? first entries <;> rfl
  | cons n others ih =>
    rw [getAt]
    cases Entries.get? first entries with
    | none => rfl
    | some v => cases v with
      | map below => exact ih n below
      | _ => rfl

/-- What is stored at a path is found there. -/
theorem getAt_insertAt {segments : List String} (h : segments ≠ []) (v : Value)
    (entries : List (String × Value)) :
    getAt segments (insertAt segments v entries) = some v := by
  induction segments generalizing entries with
  | nil => exact absurd rfl h
  | cons first others ih =>
    cases others with
    | nil => exact Entries.get?_insert_self first v entries
    | cons n others =>
      rw [insertAt, getAt, Entries.get?_insert_self]
      exact ih (List.cons_ne_nil n others) _

end Value

theorem Facts.getPath?_insert (facts : Facts) (path : String) (v : Value) :
    (facts.insert path v).getPath? path = some v :=
  Value.getAt_insertAt (Path.segments_ne_nil path) v facts.entries

namespace Path

/-- Two paths take different ways, behind some common segments or at once. -/
inductive Diverge : List String → List String → Prop
  | here {m n : String} (ne : m ≠ n) (ms ns : List String) : Diverge (m :: ms) (n :: ns)
  | later (n : String) {ms ns : List String} (h : Diverge ms ns) : Diverge (n :: ms) (n :: ns)

/-- Paths take different ways if neither is the beginning of the other. -/
theorem diverge_iff {p q : List String} : Diverge p q ↔ ¬ p <+: q ∧ ¬ q <+: p := by
  constructor
  · intro h
    induction h with
    | here ne ms ns => simp [List.cons_prefix_cons, ne, ne.symm]
    | later n h ih => simpa [List.cons_prefix_cons] using ih
  · rintro ⟨hpq, hqp⟩
    induction p generalizing q with
    | nil => exact absurd List.nil_prefix hpq
    | cons m ms ih =>
      cases q with
      | nil => exact absurd List.nil_prefix hqp
      | cons n ns =>
        by_cases hmn : m = n
        · subst hmn
          simp only [List.cons_prefix_cons, true_and] at hpq hqp
          exact .later m (ih hpq hqp)
        · exact .here hmn ms ns

end Path

namespace Value

/-- What stands in the place of an old value, or of none, after a write at a path below it. -/
def written (v : Value) : List String → Option Value → Value
  | [], _ => v
  | n :: ns, old =>
    .map (Entries.insert n (written v ns (Entries.get? n (entriesOf old))) (entriesOf old))

variable (v w : Value) (old : Option Value)

theorem get?_entriesOf (name : String) :
    Entries.get? name (entriesOf old) = old.bind (·.field? name) := by
  cases old with
  | none => rfl
  | some u => cases u <;> rfl

theorem written_cons (first : String) (others : List String) :
    written v (first :: others) old = .map (insertAt (first :: others) v (entriesOf old)) := by
  induction others generalizing first old with
  | nil => rfl
  | cons n others ih => rw [written, ih, insertAt]

theorem field?_written_self (n : String) (p : List String) :
    (written v (n :: p) old).field? n = some (written v p (old.bind (·.field? n))) := by
  rw [written, field?, Entries.get?_insert_self, get?_entriesOf]

theorem field?_written_of_ne {m n : String} (ne : m ≠ n) (p : List String) :
    (written v (m :: p) old).field? n = old.bind (·.field? n) := by
  rw [written, field?, Entries.get?_insert_of_ne ne.symm, get?_entriesOf]

/-- On the way to what is written stands what is written there. -/
theorem foldlM_written_append (p rest : List String) :
    p.foldlM field? (written v (p ++ rest) old) =
      some (written v rest (old.bind (p.foldlM field?))) := by
  induction p generalizing old with
  | nil => simp
  | cons n p ih =>
    rw [List.cons_append, List.foldlM_cons, field?_written_self, Option.bind_eq_bind,
      Option.bind_some, ih, Option.bind_assoc]
    rfl

/-- A path that takes another way is read as before. -/
theorem foldlM_written_of_diverge {p q : List String} (h : Path.Diverge p q) :
    q.foldlM field? (written v p old) = old.bind (q.foldlM field?) := by
  induction h generalizing old with
  | here ne ms ns =>
    rw [List.foldlM_cons, field?_written_of_ne v old ne]
    exact Option.bind_assoc ..
  | later n h ih =>
    rw [List.foldlM_cons, field?_written_self, Option.bind_eq_bind, Option.bind_some, ih]
    exact Option.bind_assoc ..

/-- The latter of two writes at one path is all that remains. -/
theorem written_written (p : List String) :
    written w p (some (written v p old)) = written w p old := by
  induction p generalizing old with
  | nil => rfl
  | cons n p ih =>
    simp only [written, entriesOf, Entries.get?_insert_self]
    rw [ih, Entries.insert_insert_self]

/-- Writes at paths that take different ways may change places. -/
theorem written_comm {p q : List String} (h : Path.Diverge p q) :
    written v p (some (written w q old)) = written w q (some (written v p old)) := by
  induction h generalizing old with
  | here ne ms ns =>
    simp only [written, entriesOf, Entries.get?_insert_of_ne ne, Entries.get?_insert_of_ne ne.symm]
    rw [Entries.insert_comm ne]
  | later n h ih =>
    simp only [written, entriesOf, Entries.get?_insert_self]
    rw [Entries.insert_insert_self, ih,
      Entries.insert_insert_self]

end Value

namespace Facts

/-- The facts as one map. -/
def root (facts : Facts) : Value := .map facts.entries

variable {facts : Facts} {p q : String} (v w : Value)

theorem root_injective {facts facts' : Facts} (h : facts.root = facts'.root) : facts = facts' :=
  congrArg Facts.mk (KeyMap.ext (Value.map.inj h))

theorem getPath?_eq (facts : Facts) (q : String) :
    facts.getPath? q = (Path.segments q).foldlM Value.field? facts.root := by
  obtain ⟨first, others, h⟩ := List.exists_cons_of_ne_nil (Path.segments_ne_nil q)
  rw [getPath?, h, Value.getAt_cons]
  rfl

theorem root_insert (facts : Facts) (p : String) :
    (facts.insert p v).root = Value.written v (Path.segments p) (some facts.root) := by
  obtain ⟨first, others, h⟩ := List.exists_cons_of_ne_nil (Path.segments_ne_nil p)
  have hentries : (facts.insert p v).entries =
      Value.insertAt (Path.segments p) v facts.entries := rfl
  rw [root, hentries, h, Value.written_cons]
  rfl

/-- On the way to a path stands what is written below, in the place of what stood there. -/
theorem getPath?_insert_of_segments {rest : List String}
    (h : Path.segments p = Path.segments q ++ rest) :
    (facts.insert p v).getPath? q = some (Value.written v rest (facts.getPath? q)) := by
  rw [getPath?_eq, root_insert, h, Value.foldlM_written_append, Option.bind_some, ← getPath?_eq]

/-- A path that goes on from the written one goes on from the new value. -/
theorem getPath?_insert_beyond {rest : List String}
    (h : Path.segments q = Path.segments p ++ rest) :
    (facts.insert p v).getPath? q = rest.foldlM Value.field? v := by
  rw [getPath?_eq, h, List.foldlM_append, ← getPath?_eq, getPath?_insert]
  rfl

theorem getPath?_insert_of_diverge (h : Path.Diverge (Path.segments p) (Path.segments q)) :
    (facts.insert p v).getPath? q = facts.getPath? q := by
  rw [getPath?_eq, root_insert, Value.foldlM_written_of_diverge v _ h, Option.bind_some,
    ← getPath?_eq]

theorem insert_insert (facts : Facts) (p : String) :
    (facts.insert p v).insert p w = facts.insert p w := by
  refine root_injective ?_
  rw [root_insert, root_insert, root_insert, Value.written_written]

theorem insert_comm (facts : Facts) (h : Path.Diverge (Path.segments p) (Path.segments q)) :
    (facts.insert q w).insert p v = (facts.insert p v).insert q w := by
  refine root_injective ?_
  rw [root_insert, root_insert, root_insert, root_insert, Value.written_comm v w _ h]

/-- Only the first segment of a path is the name of a fact. -/
theorem exists_entries_insert (facts : Facts) (p : String) (v : Value) :
    ∃ u, (facts.insert p v).entries =
      Entries.insert ((Path.segments p).head (Path.segments_ne_nil p)) u facts.entries := by
  have hroot := facts.root_insert v p
  obtain ⟨first, others, h⟩ := List.exists_cons_of_ne_nil (Path.segments_ne_nil p)
  simp only [h, Value.written] at hroot
  simp only [h, List.head_cons]
  exact ⟨_, Value.map.inj hroot⟩

/-- A name is added only if it is new. -/
theorem size_insert (facts : Facts) (p : String) :
    (facts.insert p v).size = facts.size +
      if (Path.segments p).head (Path.segments_ne_nil p) ∈ facts.names then 0 else 1 := by
  obtain ⟨u, hu⟩ := exists_entries_insert facts p v
  rw [KeyMap.size, hu]
  exact facts.ascending.length_insert _ _

/-- After a write at `p` the path `q` leads down from the new value if it goes on from `p`, to the
same as before if it takes another way, and to a map if `p` goes on from it. That map keeps the
entries beside the way to `p` if there was a map and has no others. A second write leaves nothing of
the first, and a name is added only for a path whose first segment was none. -/
theorem getPath?_after_insert (facts : Facts) (p q : String) (v w : Value) :
    let after := facts.insert p v
    Entries.Ascending after.entries ∧
    (∀ rest, Path.segments q = Path.segments p ++ rest →
      after.getPath? q = rest.foldlM Value.field? v) ∧
    (¬ Path.segments p <+: Path.segments q → ¬ Path.segments q <+: Path.segments p →
      after.getPath? q = facts.getPath? q) ∧
    (∀ next rest, Path.segments p = Path.segments q ++ next :: rest →
      ∃ entries, after.getPath? q = some (.map entries) ∧
        entries.filter (·.1 ≠ next) =
          (Value.entriesOf (facts.getPath? q)).filter (·.1 ≠ next)) ∧
    after.insert p w = facts.insert p w ∧
    after.size = facts.size +
      if (Path.segments p).head (Path.segments_ne_nil p) ∈ facts.names then 0 else 1 := by
  intro after
  refine ⟨after.ascending, fun rest => getPath?_insert_beyond v, fun hpq hqp => ?_,
    fun next rest hp => ?_, insert_insert v w facts p, size_insert v facts p⟩
  · exact getPath?_insert_of_diverge v (Path.diverge_iff.mpr ⟨hpq, hqp⟩)
  · exact ⟨_, getPath?_insert_of_segments v hp, Entries.filter_insert _ _ _⟩

/-- A write below an empty segment of `b` replaces the number there by a map, and `b` keeps its
other entry. -/
theorem getPath?_after_insert_scalar :
    let facts := Facts.ofList [("a", .int 1), ("b.c", .bool true), ("b.", .int 2)]
    ∃ entries, (facts.insert "b..e" .null).getPath? "b" = some (.map entries) ∧
        entries.filter (·.1 ≠ "") = [("c", .bool true)] ∧
        (facts.insert "b..e" .null).size = 2 := by
  intro facts
  obtain ⟨-, -, -, hbelow, -, hsize⟩ := getPath?_after_insert facts "b..e" "b" .null .null
  obtain ⟨entries, hread, hkept⟩ := hbelow "" ["e"] (by decide +kernel)
  exact ⟨entries, hread, hkept.trans (by decide +kernel), hsize.trans (by decide +kernel)⟩

/-- No path is another one or the beginning of another one. -/
def Apart (pairs : List (String × Value)) : Prop :=
  pairs.Pairwise fun a b => ¬ Path.segments a.1 <+: Path.segments b.1 ∧
    ¬ Path.segments b.1 <+: Path.segments a.1

instance (pairs : List (String × Value)) : Decidable (Apart pairs) :=
  inferInstanceAs (Decidable (List.Pairwise _ _))

theorem Apart.insert_comm {pairs : List (String × Value)} (apart : Apart pairs) :
    ∀ ⦃a⦄, a ∈ pairs → ∀ ⦃b⦄, b ∈ pairs → ∀ facts : Facts,
      (facts.insert a.1 a.2).insert b.1 b.2 = (facts.insert b.1 b.2).insert a.1 a.2 := by
  refine List.Pairwise.forall_of_forall_of_flip (fun _ _ _ => rfl) ?_ ?_
  · exact apart.imp fun h facts =>
      Facts.insert_comm _ _ facts (Path.diverge_iff.mpr h.symm)
  · exact apart.imp fun h facts => Facts.insert_comm _ _ facts (Path.diverge_iff.mpr h)

/-- Facts at paths that do not meet may be loaded in any order, over whatever facts there are, and
stored one after the other in any other order they come to the same. So a table of them comes to the
same facts in whatever order it is read. -/
theorem extend_perm (facts : Facts) {pairs loaded chained : List (String × Value)}
    (apart : Apart pairs) (hloaded : loaded.Perm pairs) (hchained : chained.Perm pairs) :
    facts.extend loaded = facts.extend pairs ∧
      chained.foldl (fun f e => f.insert e.1 e.2) facts = facts.extend pairs ∧
      Facts.ofList loaded = Facts.ofList pairs := by
  have hextend (facts : Facts) {l : List (String × Value)} (h : l.Perm pairs) :
      facts.extend l = facts.extend pairs := by
    refine h.foldl_eq' (fun a ha b hb facts => ?_) facts
    exact apart.insert_comm (h.mem_iff.mp ha) (h.mem_iff.mp hb) facts
  exact ⟨hextend facts hloaded, hextend facts hchained, hextend .empty hloaded⟩

/-- Three paths below a number, one of them with an empty segment, turn it into the same map. -/
theorem extend_perm_siblings :
    let facts := Facts.ofList [("a", .int 0), ("z", .null)]
    let pairs : List (String × Value) := [("a.b.c", .int 1), ("a.b.d", .int 2), ("a..b", .null)]
    Apart pairs ∧ facts.extend pairs.reverse = facts.extend pairs ∧
      (facts.extend pairs).entries = [("a", .map [("", .map [("b", .null)]),
        ("b", .map [("c", .int 1), ("d", .int 2)])]), ("z", .null)] := by
  intro facts pairs
  have apart : Apart pairs := by decide +kernel
  exact ⟨apart, (extend_perm facts apart pairs.reverse_perm (.refl _)).1, by decide +kernel⟩

end Facts

end Rulebook
