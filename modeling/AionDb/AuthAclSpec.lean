import AionDb.AuthAcl
import AionDb.LibEffect

/-!
# What the access checks cover

`Covered` says that a plan holds nothing in the places the walks of the
authorizer leave out. For such a plan the walks find every table that running
it touches, by induction on the path from the root of the plan to the node, and
on the path from an expression of the node to the scan in a subquery; so a plan
that passes `enforce_plan_acl` touches granted tables only.
-/

namespace AionDb

open Worklist List Effect

/-- What the node touches by itself is among what `required_privileges` asks for at the node. -/
def PhysicalPlan.Asked (width : RelationId → Nat) : PhysicalPlan → Prop
  | .lockingProjectTable _ _ | .nestedLoopIndexJoin _ _ _ _ _ => False
  | .deleteFromTable tableId filter returning usingTableIds =>
    filter.isSome ∨ returning ≠ [] ∨ tableId ∉ usingTableIds
  | .updateTable tableId assignments filter returning fromTableIds =>
    filter.isSome ∨ returning ≠ [] ∨
      tableId ∉ fromTableIds ∧ ∀ a ∈ assignments, ¬ a.ReadsRow (width tableId)
  | _ => True

/-- No table is touched from a place the walks leave out. -/
structure PhysicalPlan.Covered (width : RelationId → Nat) (plan : PhysicalPlan) : Prop where
  asked : ∀ m, Below PhysicalPlan.children plan m → m.Asked width
  required : ∀ m, Below PhysicalPlan.children plan m → ∀ c ∈ m.unrequired,
    ∀ n, Below PhysicalPlan.children c n → n.touched = []
  pushed : ∀ m, Below PhysicalPlan.children plan m → ∀ c ∈ m.unpushed,
    ∀ n, Below PhysicalPlan.children c n → ∀ e ∈ n.exprs, ∀ t, ¬ (CatalogTableIdWork.expr e).Reads t
  visited : ∀ m, Below PhysicalPlan.children plan m → ∀ e ∈ m.unvisited,
    ∀ t, ¬ (CatalogTableIdWork.expr e).Reads t
  inserted : ∀ m, Below PhysicalPlan.children plan m → ∀ e ∈ m.exprs,
    ∀ w, Below CatalogTableIdWork.parts (.expr e) w → w.scanned = w.inserted
  items : ∀ m, Below PhysicalPlan.children plan m → ∀ e ∈ m.exprs,
    ∀ w, Below CatalogTableIdWork.parts (.expr e) w → ∀ v ∈ w.skipped, ∀ t, ¬ v.Reads t

variable {width : RelationId → Nat} {plan c m : PhysicalPlan} {p : CatalogPrivilege}
  {t : RelationId} {e : TypedExpr}

theorem PhysicalPlan.Covered.child (h : plan.Covered width) (hc : c ∈ plan.children) :
    c.Covered width where
  asked n hn := h.asked n (.head hc hn)
  required n hn := h.required n (.head hc hn)
  pushed n hn := h.pushed n (.head hc hn)
  visited n hn := h.visited n (.head hc hn)
  inserted n hn := h.inserted n (.head hc hn)
  items n hn := h.items n (.head hc hn)

/-! ## Requirements -/

variable {returning : List TypedExpr} {filter : Option TypedExpr} {others : List RelationId}
  {tableId : RelationId} {req : Requirement}

attribute [local simp] requiredPrivileges requiredPrivilegesAll requiredPrivilegesOf

theorem mem_requiredPrivilegesAll {plans : List PhysicalPlan} :
    req ∈ requiredPrivilegesAll plans ↔ ∃ c ∈ plans, req ∈ requiredPrivileges c := by
  induction plans with
  | nil => simp
  | cons c plans ih => simp [ih]

theorem mem_requiredPrivilegesOf {plan? : Option PhysicalPlan} :
    req ∈ requiredPrivilegesOf plan? ↔ ∃ c ∈ plan?, req ∈ requiredPrivileges c := by
  cases plan? <;> simp

theorem requiredPrivileges_pushed (hc : c ∈ plan.pushed) :
    requiredPrivileges c ⊆ requiredPrivileges plan := by
  intro req hreq
  cases plan with
  | finalAggregate partials groupBy having orderBy limit offset =>
    exact mem_requiredPrivilegesAll.mpr ⟨c, hc, hreq⟩
  | _ =>
    simp only [PhysicalPlan.pushed, mem_cons, not_mem_nil, or_false] at hc
    all_goals grind [requiredPrivileges]

theorem requiredPrivileges_unpushed (hc : c ∈ plan.unpushed) (hnot : c ∉ plan.unrequired) :
    requiredPrivileges c ⊆ requiredPrivileges plan := by
  intro req hreq
  cases plan with
  | mergeTable target source sourceSubqueryPlan onCondition whenClauses =>
    have hof : req ∈ requiredPrivilegesOf sourceSubqueryPlan :=
      mem_requiredPrivilegesOf.mpr ⟨c, Option.mem_toList.mp hc, hreq⟩
    simp [hof]
  | _ => exact absurd hc hnot

theorem mem_targetPrivileges (h : filter.isSome ∨ returning ≠ []) :
    (.select, t) ∈ targetPrivileges t filter returning := by
  rcases h with h | h <;> simp [targetPrivileges, h]

theorem mem_otherPrivileges (ht : t ∈ others) (hne : t ≠ tableId) :
    (.select, t) ∈ otherPrivileges tableId others := by
  simp [otherPrivileges, ht, hne]

theorem mem_other_or_target (h : filter.isSome ∨ returning ≠ [] ∨ tableId ∉ others)
    (ht : t ∈ others) :
    (.select, t) ∈ otherPrivileges tableId others ++ targetPrivileges tableId filter returning := by
  by_cases htarget : t = tableId
  · subst htarget
    have hread : filter.isSome ∨ returning ≠ [] := by
      rcases h with h | h | h
      · exact .inl h
      · exact .inr h
      · exact absurd ht h
    exact mem_append_right _ (mem_targetPrivileges hread)
  · exact mem_append_left _ (mem_otherPrivileges ht htarget)

theorem requiredPrivileges_touched (hasked : plan.Asked width) :
    plan.touched ⊆ requiredPrivileges plan := by
  intro req hreq
  cases plan with
  | deleteFromTable tableId filter returning usingTableIds =>
    simp only [PhysicalPlan.touched, cons_append, mem_cons, mem_append, mem_map] at hreq
    simp only [requiredPrivileges, cons_append, mem_cons]
    obtain rfl | ⟨t, ht, rfl⟩ | htarget := hreq
    · exact .inl rfl
    · exact .inr (mem_other_or_target hasked ht)
    · exact .inr (mem_append_right _ htarget)
  | updateTable tableId assignments filter returning fromTableIds =>
    simp only [PhysicalPlan.touched, cons_append, mem_cons, mem_append, mem_map] at hreq
    simp only [requiredPrivileges, cons_append, mem_cons]
    obtain rfl | ⟨t, ht, rfl⟩ | htarget := hreq
    · exact .inl rfl
    · exact .inr (mem_other_or_target (hasked.imp_right (.imp_right And.left)) ht)
    · exact .inr (mem_append_right _ htarget)
  | lockingProjectTable tableId clauses => exact hasked.elim
  | nestedLoopIndexJoin left rightTableId rightFilter residual clauses => exact hasked.elim
  | _ =>
    simp only [PhysicalPlan.touched] at hreq
    all_goals grind [requiredPrivileges]

theorem requiredPrivileges_assignsFrom (hasked : plan.Asked width) (h : plan.AssignsFrom width t) :
    (.select, t) ∈ requiredPrivileges plan := by
  cases plan with
  | updateTable tableId assignments filter returning fromTableIds =>
    obtain ⟨rfl, a, ha, hreads⟩ := h
    have hread : filter.isSome ∨ returning ≠ [] := by
      rcases hasked with h | h | h
      · exact .inl h
      · exact .inr h
      · exact absurd hreads (h.2 a ha)
    simp only [requiredPrivileges, mem_append]
    exact .inr (mem_targetPrivileges hread)
  | _ => exact h.elim

section

variable (h : plan.Covered width) (hm : Below PhysicalPlan.children plan m)
include h hm

theorem requiredPrivileges_below :
    m.touched = [] ∨ requiredPrivileges m ⊆ requiredPrivileges plan := by
  induction hm using Relation.ReflTransGen.head_induction_on with
  | refl => exact .inr fun _ => id
  | @head x y hc hbelow ih =>
    by_cases hnot : y ∈ x.unrequired
    · exact .inl (h.required x .refl y hnot m hbelow)
    · have hsub : requiredPrivileges y ⊆ requiredPrivileges x := by
        rcases mem_append.mp hc with hc | hc
        · exact requiredPrivileges_pushed hc
        · exact requiredPrivileges_unpushed hc hnot
      exact (ih (h.child hc)).imp_right fun hm => List.Subset.trans hm hsub

/-! ## Subqueries -/

section

variable (he : e ∈ m.exprs) (hreads : (CatalogTableIdWork.expr e).Reads t)
include he hreads

theorem mem_walkPhysicalPlanExprs :
    e ∈ walkPhysicalPlanExprs plan := by
  have hwalk : Below PhysicalPlan.pushed plan m :=
    hm.of_not_skipped fun x hx c hc hbelow => h.pushed x hx c hc m hbelow e he t hreads
  have hvisited : e ∈ m.visited := by
    rcases mem_append.mp he with he | he
    · exact he
    · exact absurd hreads (h.visited m hm e he t)
  refine mem_flatMap.mpr ⟨m, ?_, hvisited⟩
  exact (mem_walk _ _).mpr ⟨plan, mem_singleton_self plan, hwalk⟩

theorem mem_collectTableIdsFromTypedExpr : t ∈ collectTableIdsFromTypedExpr e := by
  obtain ⟨v, hv, hscanned⟩ := hreads
  have hwalk : Below CatalogTableIdWork.pushed (.expr e) v :=
    hv.of_not_skipped fun w hw u hu hbelow => h.items m hm e he w hw u hu t ⟨v, hbelow, hscanned⟩
  rw [h.inserted m hm e he v hv] at hscanned
  refine mem_filterMap.mpr ⟨v, ?_, hscanned⟩
  exact (mem_walk _ _).mpr ⟨.expr e, mem_singleton_self _, hwalk⟩

theorem mem_collectSubqueryTableIds : t ∈ collectSubqueryTableIds plan := by
  rw [collectSubqueryTableIds, mem_mergeSort, mem_dedup]
  exact mem_flatMap.mpr ⟨e, mem_walkPhysicalPlanExprs h hm he hreads,
    mem_collectTableIdsFromTypedExpr h hm he hreads⟩

end

end

theorem PhysicalPlan.Covered.mem_checked (h : plan.Covered width) (ha : plan.Accesses width p t) :
    (p, t) ∈ requiredPrivileges plan ∨ p = .select ∧ t ∈ collectSubqueryTableIds plan := by
  cases ha with
  | @node m _ _ hm hmem =>
    rcases requiredPrivileges_below h hm with hnone | hsub
    · rw [hnone] at hmem
      cases hmem
    · exact .inl (hsub (requiredPrivileges_touched (h.asked m hm) hmem))
  | @assignment m _ hm hreads =>
    rcases requiredPrivileges_below h hm with hnone | hsub
    · cases m <;> first | exact hreads.elim | cases hnone
    · exact .inl (hsub (requiredPrivileges_assignsFrom (h.asked m hm) hreads))
  | subquery hm he hreads => exact .inr ⟨rfl, mem_collectSubqueryTableIds h hm he hreads⟩

/-! ## The checks -/

section

variable {reader : CatalogReader} {identity : AuthenticatedIdentity} {other : OtherChecks}

theorem checkAll_eq_ok {reqs : List Requirement} (h : checkAll reader identity reqs = .ok ()) :
    ∀ req ∈ reqs, checkPrivilege reader identity req.1 req.2 = .ok () := by
  induction reqs with
  | nil => simp
  | cons req reqs ih =>
    obtain ⟨⟨⟩, hreq, hreqs⟩ := bind_eq_ok.mp h
    exact forall_mem_cons.mpr ⟨hreq, ih hreqs⟩

theorem enforcePlanAcl_eq_ok (hsuper : isSuperuserChecked reader identity = .ok false)
    (h : enforcePlanAcl reader identity other plan = .ok ()) :
    enforceRoleManagementAcl reader identity plan = .ok () ∧
      (∀ req ∈ requiredPrivileges plan, checkPrivilege reader identity req.1 req.2 = .ok ()) ∧
      ∀ t ∈ collectSubqueryTableIds plan, checkPrivilege reader identity .select t = .ok () := by
  obtain ⟨super, hsuper', h⟩ := bind_eq_ok.mp h
  obtain rfl : super = false := by simpa [hsuper] using hsuper'.symm
  obtain ⟨_, hrole, h⟩ := bind_eq_ok.mp h
  obtain ⟨_, -, h⟩ := bind_eq_ok.mp h
  obtain ⟨cypher, -, h⟩ := bind_eq_ok.mp h
  obtain ⟨_, hall, -⟩ := bind_eq_ok.mp h
  have hchecked := checkAll_eq_ok hall
  refine ⟨hrole, fun req hreq => hchecked req (by simp [hreq]), fun t ht => ?_⟩
  exact hchecked (.select, t) (by simp [ht])

theorem checkTable_of_owner {table : TableDescriptor}
    (h : table.owner.any (identityMatchesOwner identity) = true) (p : CatalogPrivilege) :
    checkTable reader identity p table = checkSchemaUsage reader identity table.name.schema := by
  simp only [checkTable, h, if_true]
  exact bind_pure _

theorem checkPrivilege_of_owner (h : ownsTableId reader identity t = .ok true)
    (p q : CatalogPrivilege) :
    checkPrivilege reader identity p t = checkPrivilege reader identity q t := by
  obtain ⟨table, hget, howner⟩ := bind_eq_ok.mp h
  cases table with
  | none => simp [pure, Except.pure] at howner
  | some table =>
    have howner : table.owner.any (identityMatchesOwner identity) = true := by
      simpa [pure, Except.pure] using howner
    have htable : checkTable reader identity p table = checkTable reader identity q table := by
      rw [checkTable_of_owner howner, checkTable_of_owner howner]
    unfold checkPrivilege
    rw [hget]
    exact congrArg _ (funext fun
      | none => rfl
      | some false => rfl
      | some true => htable)

theorem ownsTableId_of_truncate (hsuper : isSuperuserChecked reader identity = .ok false)
    (hactive : catalogHasAnyRoles reader = .ok true)
    (h : enforceRoleManagementAcl reader identity (.truncateTable t) = .ok ()) :
    ownsTableId reader identity t = .ok true := by
  simp only [enforceRoleManagementAcl, hactive, hsuper] at h
  cases howns : ownsTableId reader identity t with
  | error e => simp [howns, bind, Except.bind] at h
  | ok owns => cases owns <;> simp_all [bind, Except.bind, throw, throwThe, MonadExceptOf.throw]

end

/-! ## Two plans -/

def oneColumn (filter : Option TypedExpr) : Clauses TypedExpr :=
  ⟨[.columnRef 0], filter, [], none, none, []⟩

/-- A catalog with the login roles `alice` and `bob`: `alice` owns table 1, `bob` owns the tables 2
and 3 and has granted `alice` to read table 2. -/
def sharedCatalog : CatalogReader where
  getRole role := .ok (if role = "alice" ∨ role = "bob" then some ⟨role, true, false⟩ else none)
  listRoles := .ok [⟨"alice", true, false⟩, ⟨"bob", true, false⟩]
  getTableById tableId := .ok (match tableId with
    | 1 => some ⟨⟨some "public", "orders"⟩, some "alice"⟩
    | 2 => some ⟨⟨some "public", "items"⟩, some "bob"⟩
    | 3 => some ⟨⟨some "public", "salaries"⟩, some "bob"⟩
    | _ => none)
  getPrivileges role :=
    .ok (if role = "alice" then [⟨.select, .table ⟨some "public", "items"⟩⟩] else [])
  forceRbacActive := false

def noOtherChecks : OtherChecks where
  cypherSchemaMutation _ := .ok ()
  cypherPrivileges _ := .ok []
  hybridScanPrivileges _ := .ok []
  functionsAndLocks _ := .ok ()

/-- `SELECT … FROM orders WHERE x IN (SELECT … FROM items)`. -/
def ordersInItems : PhysicalPlan :=
  .projectTable 1 (oneColumn (some (.inSubquery (.columnRef 0)
    (.projectSource (.seqScan 2) (oneColumn none)))))

/-- `SELECT … FROM salaries FOR UPDATE`. -/
def lockSalaries : PhysicalPlan := .lockingProjectTable 3 (oneColumn none)

theorem collectSubqueryTableIds_ordersInItems : collectSubqueryTableIds ordersInItems = [2] := by
  simp [collectSubqueryTableIds, walkPhysicalPlanExprs, collectTableIdsFromTypedExpr, walk,
    ordersInItems, oneColumn, PhysicalPlan.pushed, PhysicalPlan.visited, Clauses.exprs,
    CatalogTableIdWork.pushed, CatalogTableIdWork.ofExprs, CatalogTableIdWork.inserted,
    filterMap_cons]

theorem collectSubqueryTableIds_lockSalaries : collectSubqueryTableIds lockSalaries = [] := by
  simp [collectSubqueryTableIds, walkPhysicalPlanExprs, walk, lockSalaries, PhysicalPlan.pushed,
    PhysicalPlan.visited]

theorem items_ordersInItems {P : CatalogTableIdWork → Prop}
    (h : ∀ w : CatalogTableIdWork, w.scanned = w.inserted → w.skipped = [] → P w) :
    ∀ e ∈ ordersInItems.exprs, ∀ w, Below CatalogTableIdWork.parts (.expr e) w → P w := by
  have hexprs : ordersInItems.exprs = [.columnRef 0, .inSubquery (.columnRef 0)
      (.projectSource (.seqScan 2) (oneColumn none))] := rfl
  rw [hexprs, forall_mem_cons, forall_mem_singleton,
    forall_below_iff CatalogTableIdWork.shrinks_parts,
    forall_below_iff CatalogTableIdWork.shrinks_parts]
  simp only [walk, oneColumn, Option.toList_none, append_nil, nil_append,
    CatalogTableIdWork.parts, CatalogTableIdWork.pushed, CatalogTableIdWork.skipped,
    CatalogTableIdWork.ofExprs, map_cons, map_nil,
    forall_mem_cons]
  simp only [not_mem_nil, false_implies, implies_true, and_true]
  refine ⟨?_, ?_, ?_, ?_, ?_, ?_⟩ <;> exact h _ rfl rfl

theorem covered_ordersInItems : ordersInItems.Covered fun _ => 1 := by
  have hnode : ∀ m, Below PhysicalPlan.children ordersInItems m → m = ordersInItems := by
    intro m hm
    rw [below_iff] at hm
    simpa [ordersInItems, PhysicalPlan.children, PhysicalPlan.pushed, PhysicalPlan.unpushed,
      PhysicalPlan.unrequired, eq_comm] using hm
  constructor <;> intro m hm <;> obtain rfl := hnode m hm
  · trivial
  · simp [ordersInItems, PhysicalPlan.unrequired]
  · simp [ordersInItems, PhysicalPlan.unpushed, PhysicalPlan.unrequired]
  · simp [ordersInItems, PhysicalPlan.unvisited]
  · exact items_ordersInItems fun w hw _ => hw
  · exact items_ordersInItems fun w _ hw => by simp [hw]

end AionDb
