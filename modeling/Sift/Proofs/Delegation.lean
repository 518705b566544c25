import Sift.Proofs.Complement
import Sift.Proofs.Renaming
import Sift.Surface.Association

/-!
# Filtering by related rows

Conjoining the scope of an owner with a related scope through an association selects the owners that
have a related row which the related scope selects, however many tables the related scope joins in
turn. An owner without any related row has nulls in their place, and is selected exactly if the
conditions of the related scope are true of nulls.
-/

namespace Sift

/-- The line on which everything is null. -/
def View.null {Value : Type} : View Value := ⟨Row.null, fun _ => Row.null⟩

/-- All operands of a scope are columns. -/
def Scope.OnlyColumns (scope : Scope) : Prop :=
  ∀ operand ∈ operandsOf scope.conditions, ∃ source, operand = .column source

/-- A related row belongs to a row of an owner if the foreign key of one is the primary key of the
other. -/
def Association.Links {Value : Type} (association : Association) (owner : Table)
    (row related : Row Value) : Prop :=
  ∃ key, row (association.ownerKey owner) = some key ∧ related association.relatedKey = some key

section

variable {Value : Type} [DecidableEq Value] {data : Data Value}

theorem Scope.key_mem_rows {scope : Scope} {table : Table} (htable : scope.table = table.name)
    (hkey : scope.primaryKey = table.primaryKey) (hkeyed : data.Keyed table) {row : Row Value}
    (hrow : row ∈ data.rows table.name) :
    row table.primaryKey ∈ scope.rows data ↔
      ∃ line ∈ joined data scope.joins (View.start table.name row), scope.Keeps data line := by
  rw [mem_rows, htable, hkey]
  constructor
  · rintro ⟨line, hline, hkeeps, heq⟩
    obtain ⟨other, hother, hline⟩ := mem_views.mp hline
    have hbase : line.base = other := base_of_mem_joined hline
    rw [hbase] at heq
    rw [hkeyed.eq_of_key_eq hother hrow heq] at hline
    exact ⟨line, hline, hkeeps⟩
  · rintro ⟨line, hline, hkeeps⟩
    have hbase : line.base = row := base_of_mem_joined hline
    exact ⟨line, mem_views.mpr ⟨row, hrow, hline⟩, hkeeps, by rw [hbase]⟩

/-- Nothing can be joined to nulls but nulls. -/
theorem joined_null {names : List String} {joins : List Join} (hordered : JoinsOrdered names joins)
    (hnodup : (names ++ joins.map Join.qualifier).Nodup) :
    joined data joins View.null = [View.null] := by
  induction joins generalizing names with
  | nil => rfl
  | cons join rest ih =>
    have hbeside : join.partners data View.null = join.beside data none :=
      partners_of_ordered hordered hnodup View.null
    obtain ⟨-, -, hrest⟩ := hordered
    rw [List.map_cons, List.append_cons] at hnodup
    have hbind : View.null.bind join.qualifier Row.null = (View.null : View Value) :=
      congrArg (View.mk Row.null) (Function.update_eq_self join.qualifier _)
    have hpartners : join.partners data View.null = [Row.null] := by
      rw [hbeside]
      exact beside_none join
    rw [joined, hpartners, List.flatMap_cons, hbind, ih hrest hnodup]
    rfl

/-- The joins of a related scope behind an association, if no qualifier comes twice. -/
theorem joins_conjoinVia (owner : Table) (join : Join) {related : Scope}
    (hnodup : related.names.Nodup) :
    ((Scope.all owner).conjoinVia join related).joins =
      join :: related.joins.map (Join.renamed (Scope.renamesBehind join related)) := by
  set renames := Scope.renamesBehind join related with hrenames
  have hqualifiers : (join :: related.joins.map (Join.renamed renames)).map Join.qualifier =
      related.names.map renames.apply := by
    rw [Scope.names, List.map_cons, List.map_cons, hrenames, Scope.apply_renamesBehind_table,
      List.map_map, List.map_map]
    rfl
  refine Scope.addJoins_eq_append (List.Nodup.of_map Join.qualifier ?_)
  show ((join :: related.joins.map (Join.renamed renames)).map Join.qualifier).Nodup
  rw [hqualifiers]
  exact hnodup.map_on (Scope.injOn_renamesBehind join)

/-- Behind a join that gives a related row, the lines show those of the related scope that begin with
this row, one for one. -/
theorem forall₂_joined_behind {join : Join} {related : Scope} (hscoped : related.WellScoped)
    (hnodup : related.names.Nodup) {view other : View Value}
    (hview : view.named join.qualifier = other.named related.table) :
    List.Forall₂ (View.Shows (Scope.renamesBehind join related) related.names)
      (joined data (related.joins.map (Join.renamed (Scope.renamesBehind join related))) view)
      (joined data related.joins other) := by
  set renames := Scope.renamesBehind join related with hrenames
  have hshows : view.Shows renames [related.table] other := by
    intro qualifier hqualifier
    rw [List.mem_singleton.mp hqualifier, hrenames, Scope.apply_renamesBehind_table, hview]
  have hdiffer : ([related.table] ++ related.joins.map Join.qualifier).Pairwise
      fun first second => renames.apply first ≠ renames.apply second :=
    List.pairwise_map.mp (hnodup.map_on (Scope.injOn_renamesBehind join))
  exact hshows.forall₂_joined hscoped.joins hdiffer

/-- Behind a join that gives a related row, the lines that are kept are those that the related scope
keeps of a line which begins with this row. -/
theorem exists_kept_behind {owner : Table} {join : Join} {related : Scope}
    (hcolumns : related.OnlyColumns) (hscoped : related.WellScoped)
    (hnodup : related.names.Nodup) {view other : View Value}
    (hview : view.named join.qualifier = other.named related.table) :
    (∃ line ∈ joined data
        (related.joins.map (Join.renamed (Scope.renamesBehind join related))) view,
      ((Scope.all owner).conjoinVia join related).Keeps data line) ↔
    ∃ line ∈ joined data related.joins other, related.Keeps data line := by
  refine exists_mem_congr_of_forall₂ (forall₂_joined_behind hscoped hnodup hview) ?_
  intro line shown hline
  have hconditions : ((Scope.all owner).conjoinVia join related).conditions =
      related.conditions.map (Condition.renamed (Scope.renamesBehind join related)) :=
    renamedAll_eq_map _ _
  rw [Scope.Keeps, hconditions, List.forall_mem_map]
  refine forall₂_congr fun condition hcondition => ?_
  rw [hline.truth_eq]
  · intro operand hoperand
    exact hcolumns operand (mem_operandsOf.mpr ⟨condition, hcondition, hoperand⟩)
  · intro operand hoperand
    exact hscoped.operands operand (mem_operandsOf.mpr ⟨condition, hcondition, hoperand⟩)

/-- An owner is selected through a join if what the join puts beside its row becomes a line that is
kept. -/
theorem key_mem_rows_conjoinVia {owner : Table} {join : Join} {related : Scope}
    (hnodup : related.names.Nodup) (hleft : join.left.qualifier = join.qualifier)
    (hright : join.right.qualifier = owner.name) (hne : owner.name ≠ join.qualifier)
    (hkeyed : data.Keyed owner) {row : Row Value} (hrow : row ∈ data.rows owner.name) :
    row owner.primaryKey ∈ ((Scope.all owner).conjoinVia join related).rows data ↔
      ∃ beside ∈ join.beside data (row join.right.name),
        ∃ line ∈ joined data
            (related.joins.map (Join.renamed (Scope.renamesBehind join related)))
            ((View.start owner.name row).bind join.qualifier beside),
          ((Scope.all owner).conjoinVia join related).Keeps data line := by
  have hvalue : (View.start owner.name row).value join.right = row join.right.name := by
    rw [View.value, hright, View.named_start_self]
  rw [Scope.key_mem_rows rfl rfl hkeyed hrow, joins_conjoinVia owner join hnodup]
  simp only [mem_joined_cons, partners_eq_beside hleft (hright ▸ hne), hvalue]
  constructor
  · rintro ⟨line, ⟨beside, hbeside, hline⟩, hkeeps⟩
    exact ⟨beside, hbeside, line, hline, hkeeps⟩
  · rintro ⟨beside, hbeside, line, hline, hkeeps⟩
    exact ⟨line, ⟨beside, hbeside, hline⟩, hkeeps⟩

/-- An owner with related rows is selected through an association exactly if one of these is
selected by the related scope, and an owner without any exactly if the related scope's conditions
are true of nulls. -/
theorem rows_conjoinVia_association {owner : Table} {association : Association} {related : Scope}
    (htable : related.table = association.related.name)
    (hkey : related.primaryKey = association.related.primaryKey)
    (hcolumns : related.OnlyColumns) (hscoped : related.WellScoped) (hnodup : related.names.Nodup)
    (hnew : ((Scope.all owner).conjoinVia (association.join owner) related).names.Nodup)
    (howner : data.Keyed owner) (hkeyed : data.Keyed association.related)
    {row : Row Value} (hrow : row ∈ data.rows owner.name) :
    ((∃ other ∈ data.rows association.related.name, association.Links owner row other) →
      (row owner.primaryKey ∈
          ((Scope.all owner).conjoinVia (association.join owner) related).rows data ↔
        ∃ other ∈ data.rows association.related.name, association.Links owner row other ∧
          other association.related.primaryKey ∈ related.rows data)) ∧
    ((¬ ∃ other ∈ data.rows association.related.name, association.Links owner row other) →
      (row owner.primaryKey ∈
          ((Scope.all owner).conjoinVia (association.join owner) related).rows data ↔
        ∀ condition ∈ related.conditions, condition.truth data View.null = .yes)) := by
  set join := association.join owner with hjoin
  have hlinks : ∀ other, Truth.equal (other join.left.name) (row join.right.name) = .yes ↔
      association.Links owner row other := by
    intro other
    rw [Truth.equal_eq_yes]
    exact exists_congr fun key => and_comm
  have hne : owner.name ≠ join.qualifier := by
    intro heq
    refine (List.nodup_cons.mp hnew).1 (List.mem_map.mpr ⟨join, ?_, heq.symm⟩)
    rw [joins_conjoinVia owner join hnodup]
    exact List.mem_cons_self ..
  rw [key_mem_rows_conjoinVia hnodup rfl rfl hne howner hrow]
  constructor
  · -- the rows beside the owner are the related ones
    rintro ⟨linked, hlinked, hlink⟩
    have hbeside : ∀ other, other ∈ join.beside data (row join.right.name) ↔
        other ∈ data.rows association.related.name ∧ association.Links owner row other := by
      intro other
      rw [mem_beside ⟨linked, hlinked, (hlinks linked).mpr hlink⟩, hlinks]
      rfl
    simp only [hbeside, and_assoc]
    refine exists_congr fun other => and_congr_right fun hother => and_congr_right fun _ => ?_
    rw [Scope.key_mem_rows htable hkey hkeyed hother]
    refine exists_kept_behind hcolumns hscoped hnodup ?_
    rw [View.named_bind_self, htable, View.named_start_self]
  · -- a row of nulls is beside the owner, and so are nulls under all deeper qualifiers
    intro hnone
    have hbeside : join.beside data (row join.right.name) = [Row.null] :=
      beside_eq_null fun other hother hequal => hnone ⟨other, hother, (hlinks other).mp hequal⟩
    have hnull : ((View.start owner.name row).bind join.qualifier Row.null).named join.qualifier =
        View.null.named related.table := View.named_bind_self ..
    simp only [hbeside, List.mem_singleton, exists_eq_left,
      exists_kept_behind hcolumns hscoped hnodup hnull, joined_null hscoped.joins hnodup]
    rfl

end

/-! ### Authors of posts with votes -/

namespace Surface

/-- Posts, which may have votes. -/
def posts : Surface :=
  let table := Table.declare "Post" "posts" "id" [("author_id", .integer), ("votes", .integer)]
  { table := table
    types := table.types
    limits := Limits.default
    attributes := ["votes"]
    virtualColumns := []
    associations := []
    allowedScopes := []
    filters := [("votes", .own table.types (.column "votes"))]
    scopes := [] }

def authored : Association :=
  ⟨.hasMany, "posts", "author_id", posts.table⟩

/-- Authors, who can be found by the votes for their posts. -/
def authors : Surface :=
  let table := Table.declare "Author" "authors" "id" []
  { table := table
    types := table.types
    limits := Limits.default
    attributes := []
    virtualColumns := []
    associations := [authored]
    allowedScopes := []
    filters := [("posts_votes", .through (authored.join table) posts.table
      (.own posts.types (.column "votes")))]
    scopes := [] }

/-- An author of posts with and without votes, an author whose only post has none, an author without
posts and a post without author. -/
def writings : Data Nat :=
  .ofTables [
    ("authors", [[("id", 1)], [("id", 2)], [("id", 3)]]),
    ("posts", [
      [("id", 1), ("author_id", 1), ("votes", 5)],
      [("id", 2), ("author_id", 1)],
      [("id", 3), ("author_id", 2)],
      [("id", 4), ("votes", 5)]])]

end Surface

/-- The posts with five votes whose author, joined to them, is known. -/
def votedPosts : Scope :=
  (Surface.posts.all.withJoin
    ⟨"authors", "author", ⟨"author", "id"⟩, ⟨"posts", "author_id"⟩⟩).narrow
    [.compares (.column ⟨"posts", "votes"⟩) .equal (.number (.integer 5)),
      .anyOf [.compares (.column ⟨"author", "id"⟩) .atLeast (.number (.integer 1))]]

/-- Behind the posts of an author the joined author is another table than the author's own. -/
theorem rows_conjoinVia_association_votes :
    let author : Row Nat := fun column => [("id", 1)].lookup column
    let lonely : Row Nat := fun column => [("id", 3)].lookup column
    let selected := (Surface.authors.all.conjoinVia
      (Surface.authored.join Surface.authors.table) votedPosts).rows Surface.writings
    (author "id" ∈ selected ↔ ∃ other ∈ Surface.writings.rows "posts",
      Surface.authored.Links Surface.authors.table author other ∧
        other "id" ∈ votedPosts.rows Surface.writings) ∧
    (lonely "id" ∈ selected ↔ ∀ condition ∈ votedPosts.conditions,
      condition.truth Surface.writings View.null = .yes) := by
  have hcolumns : votedPosts.OnlyColumns :=
    List.forall_mem_cons.mpr ⟨⟨_, rfl⟩, List.forall_mem_singleton.mpr ⟨_, rfl⟩⟩
  have hscoped : votedPosts.WellScoped :=
    ⟨by decide, rfl, List.mem_singleton_self _, trivial⟩
  have howner : Surface.writings.Keyed Surface.authors.table := by decide
  have hkeyed : Surface.writings.Keyed Surface.posts.table := by decide
  have hnone : ∀ other ∈ Surface.writings.rows "posts", other "author_id" ≠ some 3 := by decide
  constructor
  · refine (rows_conjoinVia_association rfl rfl hcolumns hscoped (by decide) (by decide) howner
      hkeyed (List.mem_cons_self ..)).1 ?_
    exact ⟨_, List.mem_cons_self .., 1, rfl, rfl⟩
  · refine (rows_conjoinVia_association rfl rfl hcolumns hscoped (by decide) (by decide) howner
      hkeyed (List.mem_cons_of_mem _ (List.mem_cons_of_mem _ (List.mem_cons_self ..)))).2 ?_
    rintro ⟨other, hother, key, hkey, hlink⟩
    cases hkey
    exact hnone other hother hlink

end Sift
