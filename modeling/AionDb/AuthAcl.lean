import AionDb.AuthWalk
import Mathlib.Data.List.Dedup

/-!
# The access checks of a plan

`check_privilege` and `enforce_plan_acl` of `catalog_authorizer.rs` over the
committed catalog. The checks of `enforce_plan_acl` that are about Cypher
plans, hybrid scans, functions and `LOCK TABLE` are kept as arbitrary fallible
functions of the plan: they can only add requirements and failures.
-/

namespace AionDb

open Worklist List

structure QualifiedName where
  schema : Option String
  name : String

/-- `PrivilegeTarget`, with the kinds the table checks never match taken together. -/
inductive PrivilegeTarget where
  | table (name : QualifiedName)
  | schema (name : String)
  | other

structure PrivilegeDescriptor where
  privilege : CatalogPrivilege
  target : PrivilegeTarget

structure RoleDescriptor where
  name : String
  login : Bool
  superuser : Bool

structure TableDescriptor where
  name : QualifiedName
  owner : Option String

/-- `CatalogReader` on the committed state, with the process wide `FORCE_RBAC_ACTIVE`. -/
structure CatalogReader where
  getRole : String → DbResult (Option RoleDescriptor)
  listRoles : DbResult (List RoleDescriptor)
  getTableById : RelationId → DbResult (Option TableDescriptor)
  getPrivileges : String → DbResult (List PrivilegeDescriptor)
  forceRbacActive : Bool

structure AuthenticatedIdentity where
  roles : List String

def DbError.insufficientPrivilege (message : String) : DbError :=
  .authorization .insufficientPrivilege message

def asciiLowercase (s : String) : List Char := s.toList.map Char.toLower

def eqIgnoreAsciiCase (a b : String) : Bool := asciiLowercase a == asciiLowercase b

def isBuiltinSchema (name : String) : Bool :=
  ["public", "pg_catalog", "information_schema", "pg_toast"].any
      (fun builtin => asciiLowercase name == builtin.toList) ||
    "pg_temp".toList.isPrefixOf (asciiLowercase name) ||
    "pg_toast_temp".toList.isPrefixOf (asciiLowercase name)

def matchesPrivilege (granted required : CatalogPrivilege) : Bool :=
  granted == .all || granted == required

def matchesTarget (target : PrivilegeTarget) (tableName : QualifiedName) : Bool :=
  match target with
  | .table name =>
    eqIgnoreAsciiCase name.name tableName.name &&
      match name.schema, tableName.schema with
      | some a, some b => eqIgnoreAsciiCase a b
      | none, _ => true
      | some _, none => false
  | _ => false

def identityMatchesOwner (identity : AuthenticatedIdentity) (owner : String) : Bool :=
  identity.roles.any fun role => eqIgnoreAsciiCase role owner

def collectEffectiveRoleNames (identity : AuthenticatedIdentity) : List String :=
  if identity.roles.any (eqIgnoreAsciiCase · "public") then identity.roles
  else identity.roles ++ ["public"]

section

variable (reader : CatalogReader) (identity : AuthenticatedIdentity)

def isSuperuserChecked : DbResult Bool :=
  identity.roles.anyM fun role => do
    let desc ← reader.getRole role
    return desc.any (·.superuser)

def roleSystemActive : DbResult Bool :=
  identity.roles.anyM fun role => do
    let desc ← reader.getRole role
    return desc.isSome

def catalogHasAnyRoles : DbResult Bool := do
  if reader.forceRbacActive then return true
  let roles ← reader.listRoles
  return roles.any fun role => role.login || role.superuser

def hasSchemaPrivilege (schemaName : String) (required : CatalogPrivilege) : DbResult Bool :=
  (collectEffectiveRoleNames identity).anyM fun role => do
    let privileges ← reader.getPrivileges role
    return privileges.any fun privilege =>
      matchesPrivilege privilege.privilege required &&
        match privilege.target with
        | .schema granted => eqIgnoreAsciiCase granted schemaName
        | _ => false

/-- The first pass of `check_privilege`: `none` when a superuser role ends it, or whether one of the
roles exists. -/
def scanRoles : List String → Bool → DbResult (Option Bool)
  | [], any => .ok (some any)
  | role :: roles, any => do
    match ← reader.getRole role with
    | none => scanRoles roles any
    | some desc => if desc.superuser then return none else scanRoles roles true

def checkSchemaUsage (schema : Option String) : DbResult Unit :=
  match schema with
  | none => return ()
  | some schemaName => do
    if !isBuiltinSchema schemaName then
      if !(← hasSchemaPrivilege reader identity schemaName .usage) then
        throw (.insufficientPrivilege s!"permission denied for schema {schemaName}")

def roleGrants (privilege : CatalogPrivilege) (tableName : QualifiedName) (role : String) :
    DbResult Bool := do
  if eqIgnoreAsciiCase role "pg_read_all_data" && privilege == .select then return true
  if eqIgnoreAsciiCase role "pg_write_all_data" &&
      (privilege == .insert || privilege == .update || privilege == .delete) then return true
  let privileges ← reader.getPrivileges role
  return privileges.any fun desc =>
    matchesPrivilege desc.privilege privilege && matchesTarget desc.target tableName

def checkTable (privilege : CatalogPrivilege) (table : TableDescriptor) : DbResult Unit := do
  checkSchemaUsage reader identity table.name.schema
  if table.owner.any (identityMatchesOwner identity) then return ()
  if ← (collectEffectiveRoleNames identity).anyM (roleGrants reader privilege table.name) then
    return ()
  throw (.insufficientPrivilege s!"permission denied for table {table.name.name}")

def checkPrivilege (privilege : CatalogPrivilege) (tableId : RelationId) : DbResult Unit := do
  match ← scanRoles reader identity.roles false with
  | none => return ()
  | some false =>
    if ← catalogHasAnyRoles reader then
      throw (.insufficientPrivilege "no valid roles found for user")
  | some true =>
    match ← reader.getTableById tableId with
    | none => return ()
    | some table => checkTable reader identity privilege table

def ownsTableId (tableId : RelationId) : DbResult Bool := do
  let table ← reader.getTableById tableId
  return table.any fun table => table.owner.any (identityMatchesOwner identity)

def enforceRoleManagementAcl : PhysicalPlan → DbResult Unit
  | .createTableAs _ => do
    if ← catalogHasAnyRoles reader then
      if !(← isSuperuserChecked reader identity) then
        if !(← roleSystemActive reader identity) then
          throw (.insufficientPrivilege
            "must map to an existing role to create objects when role management is active")
  | .truncateTable tableId => do
    if ← catalogHasAnyRoles reader then
      if !(← isSuperuserChecked reader identity) then
        if !(← ownsTableId reader identity tableId) then
          throw (.insufficientPrivilege "must be owner of table")
  | _ => return ()

end

/-- The checks of `enforce_plan_acl` about plans and functions outside the model. -/
structure OtherChecks where
  cypherSchemaMutation : PhysicalPlan → DbResult Unit
  cypherPrivileges : PhysicalPlan → DbResult (List Requirement)
  hybridScanPrivileges : PhysicalPlan → DbResult (List Requirement)
  functionsAndLocks : PhysicalPlan → DbResult Unit

/-! ## The walks end -/

variable {E α : Type}

theorem sum_map_sizeOf_lt [SizeOf α] (l : List α) : (l.map sizeOf).sum < sizeOf l := by
  induction l with
  | nil => simp
  | cons a l ih => simp only [map_cons, sum_cons, List.cons.sizeOf_spec]; omega

theorem sum_toList_sizeOf_lt [SizeOf α] (o : Option α) : (o.toList.map sizeOf).sum < sizeOf o := by
  cases o <;> simp

theorem sum_exprs_lt [SizeOf E] (c : Clauses E) : (c.exprs.map sizeOf).sum < sizeOf c := by
  obtain ⟨outputs, filter, orderBy, limit, offset, distinctOn⟩ := c
  have h1 := sum_map_sizeOf_lt outputs
  have h2 := sum_map_sizeOf_lt orderBy
  have h3 := sum_map_sizeOf_lt distinctOn
  have h4 := sum_toList_sizeOf_lt filter
  have h5 := sum_toList_sizeOf_lt limit
  have h6 := sum_toList_sizeOf_lt offset
  simp only [Clauses.exprs, map_append, sum_append, Clauses.mk.sizeOf_spec]
  omega

theorem sum_grouping_lt [SizeOf E] (g : Grouping E) : (g.exprs.map sizeOf).sum < sizeOf g := by
  obtain ⟨groupBy, having, clauses⟩ := g
  have h1 := sum_map_sizeOf_lt groupBy
  have h2 := sum_toList_sizeOf_lt having
  have h3 := sum_exprs_lt clauses
  simp only [Grouping.exprs, map_append, sum_append, Grouping.mk.sizeOf_spec]
  omega

theorem sum_sortExprs_lt [SizeOf E] (orderBy : List E) (limit offset : Option E) :
    ((sortExprs orderBy limit offset).map sizeOf).sum <
      sizeOf orderBy + sizeOf limit + sizeOf offset := by
  have h1 := sum_map_sizeOf_lt orderBy
  have h2 := sum_toList_sizeOf_lt limit
  have h3 := sum_toList_sizeOf_lt offset
  simp only [sortExprs, map_append, sum_append]
  omega

theorem sum_flatten_lt [SizeOf E] (rows : List (List E)) :
    (rows.flatten.map sizeOf).sum < sizeOf rows := by
  induction rows with
  | nil => simp
  | cons row rows ih =>
    have h := sum_map_sizeOf_lt row
    simp only [flatten_cons, map_append, sum_append, List.cons.sizeOf_spec]
    omega

noncomputable def CatalogTableIdWork.weight : CatalogTableIdWork → Nat
  | .expr e => sizeOf e
  | .logical plan => sizeOf plan

theorem sum_weight_ofExprs (es : List TypedExpr) :
    ((CatalogTableIdWork.ofExprs es).map CatalogTableIdWork.weight).sum = (es.map sizeOf).sum := by
  simp only [CatalogTableIdWork.ofExprs, map_map]
  rfl

namespace CatalogTableIdWork
theorem sum_weight_expr (e : TypedExpr) :
    ((parts (.expr e)).map weight).sum < weight (.expr e) := by
  have hlist := fun l : List TypedExpr => sum_map_sizeOf_lt l
  have hopt := fun o : Option TypedExpr => sum_toList_sizeOf_lt o
  cases e <;> simp [parts, pushed, skipped, sum_weight_ofExprs, weight] <;> grind

theorem sum_weight_logical (plan : LogicalPlan) :
    ((parts (.logical plan)).map weight).sum < weight (.logical plan) := by
  have hclauses := fun c : Clauses TypedExpr => sum_exprs_lt c
  have hgrouping := fun g : Grouping TypedExpr => sum_grouping_lt g
  have hsort := fun (l : List TypedExpr) o o' => sum_sortExprs_lt l o o'
  have hrows := fun rows : List (List TypedExpr) => sum_flatten_lt rows
  have hopt := fun o : Option TypedExpr => sum_toList_sizeOf_lt o
  cases plan with
  | projectSource source clauses =>
    -- the walk pushes some of the clauses
    have h := hclauses clauses
    simp [Clauses.exprs] at h
    simp [parts, pushed, skipped, sum_weight_ofExprs, weight]
    omega
  | _ =>
    simp [parts, pushed, skipped, sum_weight_ofExprs, weight]
    all_goals grind

end CatalogTableIdWork

theorem sum_children_lt (plan : PhysicalPlan) : (plan.children.map sizeOf).sum < sizeOf plan := by
  have hlist := fun plans : List PhysicalPlan => sum_map_sizeOf_lt plans
  have hopt := fun plan : Option PhysicalPlan => sum_toList_sizeOf_lt plan
  cases plan <;> simp [PhysicalPlan.children, PhysicalPlan.pushed, PhysicalPlan.unpushed,
    PhysicalPlan.unrequired] <;> grind

theorem CatalogTableIdWork.shrinks_parts : Shrinks CatalogTableIdWork.parts := by
  refine ⟨CatalogTableIdWork.weight, fun w => ?_⟩
  cases w with
  | expr e => exact sum_weight_expr e
  | logical plan => exact sum_weight_logical plan

theorem CatalogTableIdWork.shrinks_pushed : Shrinks CatalogTableIdWork.pushed :=
  shrinks_parts.of_append

theorem PhysicalPlan.shrinks_pushed : Shrinks PhysicalPlan.pushed :=
  Shrinks.of_append ⟨sizeOf, sum_children_lt⟩

/-! ## The enforced checks -/

def collectTableIdsFromTypedExpr (e : TypedExpr) : List RelationId :=
  (walk _ CatalogTableIdWork.shrinks_pushed [.expr e]).filterMap CatalogTableIdWork.inserted

def walkPhysicalPlanExprs (plan : PhysicalPlan) : List TypedExpr :=
  (walk _ PhysicalPlan.shrinks_pushed [plan]).flatMap PhysicalPlan.visited

def collectSubqueryTableIds (plan : PhysicalPlan) : List RelationId :=
  ((walkPhysicalPlanExprs plan).flatMap collectTableIdsFromTypedExpr).dedup.mergeSort

section

variable (reader : CatalogReader) (identity : AuthenticatedIdentity) (other : OtherChecks)

def checkAll (reqs : List Requirement) : DbResult Unit :=
  reqs.forM fun req => checkPrivilege reader identity req.1 req.2

def enforcePlanAcl (plan : PhysicalPlan) : DbResult Unit := do
  if ← isSuperuserChecked reader identity then return ()
  enforceRoleManagementAcl reader identity plan
  other.cypherSchemaMutation plan
  let cypher ← other.cypherPrivileges plan
  checkAll reader identity (requiredPrivileges plan ++ cypher ++
    (collectSubqueryTableIds plan).map (.select, ·))
  checkAll reader identity (← other.hybridScanPrivileges plan)
  other.functionsAndLocks plan

end

end AionDb
