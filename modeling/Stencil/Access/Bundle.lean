/-
Bundles: members that are iterated together, in groups that may hold further groups. A bundle of views yields a
bundle of handles, of strides and of bounds, each of the same shape. Members are numbered from left to right
regardless of how they are grouped.

- `members_map`, `shiftBy_map`: mapping and moving act on each member alone;
- `carries_eq_any`, `checkMember_eq_members`: questions about a bundle are questions about its members, asked from
  left to right;
- `steps_of_carries`, `steps_of_not_carries`: a bundle has steps along the axes that some member carries.
-/
import Stencil.Access.View

namespace Stencil

/-- members, singly or in groups -/
inductive Bundle (ι : Type) where
  | member (i : ι)
  | group (parts : List (Bundle ι))

namespace Bundle

variable {ι κ μ : Type}

/-- one group of single members -/
def ofMembers (is : List ι) : Bundle ι := .group (is.map .member)

mutual
/-- all members, from left to right -/
def members : Bundle ι → List ι
  | .member i => [i]
  | .group parts => membersOf parts
/-- all members of a list of bundles -/
def membersOf : List (Bundle ι) → List ι
  | [] => []
  | b :: bs => b.members ++ membersOf bs
end

mutual
/-- the bundle of the images of the members -/
def map (f : ι → κ) : Bundle ι → Bundle κ
  | .member i => .member (f i)
  | .group parts => .group (mapOf f parts)
/-- the bundles of the images of the members -/
def mapOf (f : ι → κ) : List (Bundle ι) → List (Bundle κ)
  | [] => []
  | b :: bs => b.map f :: mapOf f bs
end

mutual
/-- the bundle of the images of the members, from left to right; the first failure is the answer -/
def traverse {ε : Type} (f : ι → Except ε κ) : Bundle ι → Except ε (Bundle κ)
  | .member i => do return .member (← f i)
  | .group parts => do return .group (← traverseOf f parts)
/-- the bundles of the images of the members, from left to right -/
def traverseOf {ε : Type} (f : ι → Except ε κ) : List (Bundle ι) → Except ε (List (Bundle κ))
  | [] => .ok []
  | b :: bs => do return (← b.traverse f) :: (← traverseOf f bs)
end

/-- how many members there are -/
def size (b : Bundle ι) : Nat := b.members.length

mutual
/-- the bundle with member number `n` replaced by its image -/
def update (f : ι → ι) (n : Nat) : Bundle ι → Bundle ι
  | .member i => if n = 0 then .member (f i) else .member i
  | .group parts => .group (updateOf f n parts)
/-- the bundles with member number `n` replaced by its image -/
def updateOf (f : ι → ι) (n : Nat) : List (Bundle ι) → List (Bundle ι)
  | [] => []
  | b :: bs => if n < b.size then b.update f n :: bs else b :: updateOf f (n - b.size) bs
end

mutual
theorem members_map (f : ι → κ) : ∀ b : Bundle ι, (b.map f).members = b.members.map f
  | .member i => by simp [map, members]
  | .group parts => by simp [map, members, membersOf_mapOf f parts]
theorem membersOf_mapOf (f : ι → κ) : ∀ bs : List (Bundle ι), membersOf (mapOf f bs) = (membersOf bs).map f
  | [] => by simp [mapOf, membersOf]
  | b :: bs => by simp [mapOf, membersOf, members_map f b, membersOf_mapOf f bs]
end

@[simp] theorem size_map (f : ι → κ) (b : Bundle ι) : (b.map f).size = b.size := by simp [size, members_map]

mutual
theorem map_map (g : κ → μ) (f : ι → κ) : ∀ b : Bundle ι, (b.map f).map g = b.map fun i => g (f i)
  | .member i => by simp [map]
  | .group parts => by simp [map, mapOf_mapOf g f parts]
theorem mapOf_mapOf (g : κ → μ) (f : ι → κ) :
    ∀ bs : List (Bundle ι), mapOf g (mapOf f bs) = mapOf (fun i => g (f i)) bs
  | [] => by simp [mapOf]
  | b :: bs => by simp [mapOf, map_map g f b, mapOf_mapOf g f bs]
end

/-- the handle of member number `n`; a number past the last names a handle that admits nothing -/
def handle (p : Bundle Handle) (n : Nat) : Handle := p.members[n]?.getD default

/-! ## Moving all members -/

mutual
/-- the handles moved by `count` steps, each by its own step; a handle without a step stands still -/
def shiftBy (count : Int64) : Bundle Handle → Bundle Int64 → Bundle Handle
  | .member h, .member step => .member (h.shiftBy step count)
  | .group hs, .group steps => .group (shiftByOf count hs steps)
  | p, _ => p
/-- the bundles moved by `count` steps -/
def shiftByOf (count : Int64) : List (Bundle Handle) → List (Bundle Int64) → List (Bundle Handle)
  | p :: ps, s :: ss => shiftBy count p s :: shiftByOf count ps ss
  | ps, _ => ps
end

mutual
/-- moving with steps of the same shape moves each member by its own step -/
theorem shiftBy_map (count : Int64) (f : ι → Handle) (g : ι → Int64) :
    ∀ b : Bundle ι, shiftBy count (b.map f) (b.map g) = b.map fun i => (f i).shiftBy (g i) count
  | .member i => by simp [map, shiftBy]
  | .group parts => by simp [map, shiftBy, shiftByOf_mapOf count f g parts]
theorem shiftByOf_mapOf (count : Int64) (f : ι → Handle) (g : ι → Int64) :
    ∀ bs : List (Bundle ι),
      shiftByOf count (mapOf f bs) (mapOf g bs) = mapOf (fun i => (f i).shiftBy (g i) count) bs
  | [] => by simp [mapOf, shiftByOf]
  | b :: bs => by simp [mapOf, shiftByOf, shiftBy_map count f g b, shiftByOf_mapOf count f g bs]
end

/-! ## Strides of a bundle -/

mutual
/-- whether some member has a stride along the axis -/
def carries (d : Dim) : Bundle (DimMap Int64) → Bool
  | .member strides => strides.contains d
  | .group parts => carriesOf d parts
/-- whether some member of a list of bundles has a stride along the axis -/
def carriesOf (d : Dim) : List (Bundle (DimMap Int64)) → Bool
  | [] => false
  | b :: bs => b.carries d || carriesOf d bs
end

mutual
theorem carries_eq_any (d : Dim) :
    ∀ b : Bundle (DimMap Int64), b.carries d = b.members.any fun strides => strides.contains d
  | .member s => by simp [carries, members]
  | .group parts => by simp only [carries, members, carriesOf_eq_any d parts]
theorem carriesOf_eq_any (d : Dim) :
    ∀ bs : List (Bundle (DimMap Int64)), carriesOf d bs = (membersOf bs).any fun strides => strides.contains d
  | [] => by simp [carriesOf, membersOf]
  | b :: bs => by simp [carriesOf, membersOf, carries_eq_any d b, carriesOf_eq_any d bs]
end

/-- the steps along an axis, zero for members without it -/
def stepsOf (b : Bundle (DimMap Int64)) (d : Dim) : Bundle Int64 := b.map fun strides => strides.stepOf d

/-- the steps along an axis that some member must carry -/
def steps (b : Bundle (DimMap Int64)) (d : Dim) : Except ContractViolation (Bundle Int64) :=
  if b.carries d then .ok (b.stepsOf d) else .error (.missingStride d.label)

theorem steps_of_carries {b : Bundle (DimMap Int64)} {d : Dim} (h : b.carries d = true) :
    b.steps d = .ok (b.stepsOf d) := if_pos h

theorem steps_of_not_carries {b : Bundle (DimMap Int64)} {d : Dim} (h : b.carries d = false) :
    b.steps d = .error (.missingStride d.label) := if_neg (by rw [h]; exact Bool.false_ne_true)

/-! ## Bundles of views -/

def strides (b : Bundle View) : Bundle (DimMap Int64) := b.map View.strides

def bounds (b : Bundle View) : Bundle (DimMap UInt64) := b.map View.bounds

def origin (b : Bundle View) : Bundle Handle := b.map View.origin

def elementOrigin (b : Bundle View) (d : Dim) (index : UInt64) : Bundle Handle :=
  b.map fun v => v.elementOrigin d index

def share (b : Bundle View) : Bundle View.Snapshot := b.map View.share

def unitOrigin (b : Bundle View.Snapshot) (u : View.LaunchUnit) : Bundle Handle := b.map fun s => s.unitOrigin u

mutual
/-- the launch check of every member, from left to right; the first violation is the answer -/
def checkMember (d : Dim) (extent : UInt64) (storage : Storage) : Bundle View → Except ContractViolation Unit
  | .member v => v.checkMember d extent storage
  | .group parts => checkMembersOf d extent storage parts
/-- the launch check of every member of a list of bundles -/
def checkMembersOf (d : Dim) (extent : UInt64) (storage : Storage) :
    List (Bundle View) → Except ContractViolation Unit
  | [] => .ok ()
  | b :: bs => do
    checkMember d extent storage b
    checkMembersOf d extent storage bs
end

/-- the launch check of a bundle: some member must carry the axis, and every member must pass its own check -/
def checkOuter (b : Bundle View) (d : Dim) (extent : UInt64) (storage : Storage) :
    Except ContractViolation Unit := do
  unless b.strides.carries d do throw (.missingStride d.label)
  b.checkMember d extent storage

/-- the launch check of members in a row -/
def checkAll (d : Dim) (extent : UInt64) (storage : Storage) : List View → Except ContractViolation Unit
  | [] => .ok ()
  | v :: vs => do
    v.checkMember d extent storage
    checkAll d extent storage vs

theorem checkAll_append (d : Dim) (extent : UInt64) (storage : Storage) (vs ws : List View) :
    checkAll d extent storage (vs ++ ws) =
      (checkAll d extent storage vs >>= fun _ => checkAll d extent storage ws) := by
  induction vs with
  | nil => rfl
  | cons v vs ih =>
    simp only [List.cons_append, checkAll, ih]
    cases v.checkMember d extent storage <;> rfl

mutual
theorem checkMember_eq_members (d : Dim) (extent : UInt64) (storage : Storage) :
    ∀ b : Bundle View, checkMember d extent storage b = checkAll d extent storage b.members
  | .member v => by
    simp only [checkMember, members, checkAll]
    cases v.checkMember d extent storage <;> rfl
  | .group parts => by simp only [checkMember, members, checkMembersOf_eq_membersOf d extent storage parts]
theorem checkMembersOf_eq_membersOf (d : Dim) (extent : UInt64) (storage : Storage) :
    ∀ bs : List (Bundle View), checkMembersOf d extent storage bs = checkAll d extent storage (membersOf bs)
  | [] => rfl
  | b :: bs => by
    simp only [checkMembersOf, membersOf, checkAll_append, checkMember_eq_members d extent storage b,
      checkMembersOf_eq_membersOf d extent storage bs]
end

/-! ## Text -/

mutual
/-- the members shown in groups -/
def inspect (render : ι → String) : Bundle ι → String
  | .member i => render i
  | .group parts => Inspect.tuple (inspectOf render parts)
/-- the bundles of a group, each shown -/
def inspectOf (render : ι → String) : List (Bundle ι) → List String
  | [] => []
  | b :: bs => b.inspect render :: inspectOf render bs
end

end Bundle

end Stencil
