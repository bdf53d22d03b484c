import OpenHtf.DescriptorArgs

/-!
# Transforming a tree of phases

`with_args`, `with_plugs`, `load_code_info` and `apply_to_all_phases` of the node
classes.  Each class walks its own parts; what differs between the four operations is
what becomes of a phase and of a name.  The trees are those of `PhaseNode` with any type
of phases in them.
-/

set_option autoImplicit false

namespace OpenHtf.PhaseTree

/-! ## Trees -/

mutual

inductive Node (α : Type) where
  | phase (p : α)
  | checkpoint (c : Checkpoint)
  | sequence (s : Sequence α)
  | group (g : Group α)

/-- A `PhaseSequence`, `Subtest` or `BranchSequence`; the kind of a branch carries its
condition. -/
inductive Sequence (α : Type) where
  | mk (kind : SequenceKind) (name : Option String) (nodes : List (Node α))

inductive Group (α : Type) where
  | mk (setup main teardown : Option (Sequence α)) (name : Option String)

end

variable {α β γ : Type}

section Induction

variable {P : Node α → Prop} {S : Sequence α → Prop}

/-- Induction over a tree, with one case for each kind of node. -/
theorem Node.tree_induction (phase : ∀ p, P (.phase p)) (checkpoint : ∀ c, P (.checkpoint c))
    (sequence : ∀ s, S s → P (.sequence s))
    (group : ∀ setup main teardown name, (∀ s ∈ setup, S s) → (∀ s ∈ main, S s) →
      (∀ s ∈ teardown, S s) → P (.group (.mk setup main teardown name)))
    (nodes : ∀ kind name ns, (∀ n ∈ ns, P n) → S (.mk kind name ns)) (t : Node α) : P t :=
  @Node.rec α P S (fun g ↦ P (.group g)) (fun ns ↦ ∀ n ∈ ns, P n) (fun o ↦ ∀ s ∈ o, S s)
    phase checkpoint sequence (fun _ h ↦ h) nodes group (by simp)
    (fun n ns hn hns ↦ by simpa using ⟨hn, hns⟩) (by simp) (fun s hs ↦ by simpa using hs) t

end Induction

mutual

/-- What `all_phases` gives for a node: the phases of a tree, in order. -/
def Node.phases : Node α → List α
  | .phase p => [p]
  | .checkpoint _ => []
  | .sequence s => s.phases
  | .group g => g.phases

def Sequence.phases : Sequence α → List α
  | .mk _ _ nodes => phasesOf nodes

def phasesOf : List (Node α) → List α
  | [] => []
  | n :: ns => n.phases ++ phasesOf ns

def Group.phases : Group α → List α
  | .mk setup main teardown _ => phasesOfPart setup ++ (phasesOfPart main ++ phasesOfPart teardown)

def phasesOfPart : Option (Sequence α) → List α
  | none => []
  | some s => s.phases

end

mutual

/-- The names of the nodes that are not phases, those below a node before its own. -/
def Node.names : Node α → List String
  | .phase _ => []
  | .checkpoint c => [c.name]
  | .sequence s => s.names
  | .group g => g.names

def Sequence.names : Sequence α → List String
  | .mk _ name nodes => namesOf nodes ++ name.toList

def namesOf : List (Node α) → List String
  | [] => []
  | n :: ns => n.names ++ namesOf ns

def Group.names : Group α → List String
  | .mk setup main teardown name =>
      namesOfPart setup ++ (namesOfPart main ++ (namesOfPart teardown ++ name.toList))

def namesOfPart : Option (Sequence α) → List String
  | none => []
  | some s => s.names

end

mutual

/-- A tree without its phases and without what its names are: the kinds of its nodes, the
conditions of branches and checkpoints, which nodes have a name and where phases stand. -/
def Node.shape : Node α → Node Unit
  | .phase _ => .phase ()
  | .checkpoint c => .checkpoint { c with name := "" }
  | .sequence s => .sequence s.shape
  | .group g => .group g.shape

def Sequence.shape : Sequence α → Sequence Unit
  | .mk kind name nodes => .mk kind (name.map fun _ ↦ "") (shapesOf nodes)

def shapesOf : List (Node α) → List (Node Unit)
  | [] => []
  | n :: ns => n.shape :: shapesOf ns

def Group.shape : Group α → Group Unit
  | .mk setup main teardown name =>
      .mk (shapeOfPart setup) (shapeOfPart main) (shapeOfPart teardown) (name.map fun _ ↦ "")

def shapeOfPart : Option (Sequence α) → Option (Sequence Unit)
  | none => none
  | some s => some s.shape

end

/-! ## The operations -/

section Traverse

variable (func : α → Except PyExc β) (format : String → Except PyExc String)

/-- What becomes of a name that may be missing. -/
def formatName : Option String → Except PyExc (Option String)
  | none => .ok none
  | some name => some <$> format name

mutual

/-- The walk that every operation makes: `func` is what it does to a phase and `format`
what it does to a name. -/
def Node.traverse : Node α → Except PyExc (Node β)
  | .phase p => .phase <$> func p
  -- `attr_copy` with a new name, or the checkpoint itself
  | .checkpoint c => (fun name ↦ .checkpoint { c with name }) <$> format c.name
  | .sequence s => .sequence <$> Sequence.traverse s
  | .group g => .group <$> Group.traverse g

/-- `attr.evolve` with new nodes and a new name makes a sequence of the same class, with
its other fields. -/
def Sequence.traverse : Sequence α → Except PyExc (Sequence β)
  | .mk kind name nodes => do
      let nodes ← traverseNodes nodes
      let name ← formatName format name
      return .mk kind name nodes

def traverseNodes : List (Node α) → Except PyExc (List (Node β))
  | [] => .ok []
  | n :: ns => do
      let n ← Node.traverse n
      let ns ← traverseNodes ns
      return n :: ns

/-- The constructor leaves a part that is a sequence or `None` as it is. -/
def Group.traverse : Group α → Except PyExc (Group β)
  | .mk setup main teardown name => do
      let setup ← traversePart setup
      let main ← traversePart main
      let teardown ← traversePart teardown
      let name ← formatName format name
      return .mk setup main teardown name

def traversePart : Option (Sequence α) → Except PyExc (Option (Sequence β))
  | none => .ok none
  | some s => some <$> Sequence.traverse s

end

end Traverse

section Operations

variable {V W : Type} (py : UserObjects V W)

def Node.withArgs (kwargs : List (String × V)) (t : Node (DescriptorArgs.PhaseDescriptor V W)) :
    Except PyExc (Node (DescriptorArgs.PhaseDescriptor V W)) :=
  t.traverse (·.withArgs py kwargs) (py.formatText kwargs)

def Node.withPlugs (subplugs : List (String × V)) (t : Node (DescriptorArgs.PhaseDescriptor V W)) :
    Except PyExc (Node (DescriptorArgs.PhaseDescriptor V W)) :=
  t.traverse (·.withPlugs py subplugs) (py.formatText subplugs)

def Node.loadCodeInfo (t : Node (DescriptorArgs.PhaseDescriptor V W)) :
    Except PyExc (Node (DescriptorArgs.PhaseDescriptor V W)) :=
  t.traverse (·.loadCodeInfo) .ok

end Operations

/-- `func` may raise. -/
def Node.applyToAllPhases (func : α → Except PyExc β) (t : Node α) : Except PyExc (Node β) :=
  t.traverse func .ok

/-! ## How many phases and names there are -/

theorem length_shape (t : Node α) :
    t.shape.phases.length = t.phases.length ∧ t.shape.names.length = t.names.length := by
  induction t using Node.tree_induction
      (S := fun s ↦ s.shape.phases.length = s.phases.length ∧
        s.shape.names.length = s.names.length) with
  | phase p => exact ⟨rfl, rfl⟩
  | checkpoint c => exact ⟨rfl, rfl⟩
  | sequence s h => exact h
  | group setup main teardown name hsetup hmain hteardown =>
      have hpart (o : Option (Sequence α))
          (h : ∀ s ∈ o, s.shape.phases.length = s.phases.length ∧
            s.shape.names.length = s.names.length) :
          (phasesOfPart (shapeOfPart o)).length = (phasesOfPart o).length ∧
            (namesOfPart (shapeOfPart o)).length = (namesOfPart o).length := by
        cases o with
        | none => exact ⟨rfl, rfl⟩
        | some s => exact h s rfl
      obtain ⟨hs, hs'⟩ := hpart setup hsetup
      obtain ⟨hm, hm'⟩ := hpart main hmain
      obtain ⟨ht, ht'⟩ := hpart teardown hteardown
      constructor
      · simp only [Node.shape, Group.shape, Node.phases, Group.phases, List.length_append, hs, hm, ht]
      · cases name <;>
          simp only [Node.shape, Group.shape, Node.names, Group.names, List.length_append, hs', hm', ht',
            Option.map_none, Option.map_some, Option.toList_none, Option.toList_some, List.length_cons]
  | nodes kind name ns h =>
      have hnodes : (phasesOf (shapesOf ns)).length = (phasesOf ns).length ∧
          (namesOf (shapesOf ns)).length = (namesOf ns).length := by
        induction ns with
        | nil => exact ⟨rfl, rfl⟩
        | cons n ns ih =>
            obtain ⟨hn, hn'⟩ := h n List.mem_cons_self
            obtain ⟨hns, hns'⟩ := ih fun m hm ↦ h m (List.mem_cons_of_mem _ hm)
            simp only [shapesOf, phasesOf, namesOf, List.length_append, hn, hn', hns, hns', and_self]
      refine ⟨hnodes.1, ?_⟩
      cases name <;>
        simp only [Sequence.shape, Sequence.names, List.length_append, hnodes.2, Option.map_none,
          Option.map_some, Option.toList_none, Option.toList_some, List.length_cons]

/-- Trees of one shape have as many phases and names. -/
theorem sizes_eq {t : Node α} {t' : Node β} (h : t'.shape = t.shape) :
    t'.phases.length = t.phases.length ∧ t'.names.length = t.names.length := by
  obtain ⟨hphases, hnames⟩ := length_shape t
  obtain ⟨hphases', hnames'⟩ := length_shape t'
  rw [← hphases, ← hphases', ← hnames, ← hnames', h]
  exact ⟨rfl, rfl⟩

theorem sizes_eq_nodes {ns : List (Node α)} {ns' : List (Node β)} (h : shapesOf ns' = shapesOf ns) :
    (phasesOf ns').length = (phasesOf ns).length ∧ (namesOf ns').length = (namesOf ns).length := by
  have hshape : (Node.sequence (.mk .plain none ns')).shape = (Node.sequence (.mk .plain none ns)).shape := by
    simp only [Node.shape, Sequence.shape, h, Option.map_none]
  simpa [Node.phases, Sequence.phases, Node.names, Sequence.names] using sizes_eq hshape

theorem sizes_eq_part {o : Option (Sequence α)} {o' : Option (Sequence β)}
    (h : shapeOfPart o' = shapeOfPart o) :
    (phasesOfPart o').length = (phasesOfPart o).length ∧
      (namesOfPart o').length = (namesOfPart o).length := by
  have hshape : (Node.group (.mk o' none none none)).shape = (Node.group (.mk o none none none)).shape := by
    simp only [Node.shape, Group.shape, h, shapeOfPart, Option.map_none]
  simpa [Node.phases, Group.phases, phasesOfPart, Node.names, Group.names, namesOfPart]
    using sizes_eq hshape

/-! ## What a walk comes to -/

section Walk

variable {func : α → Except PyExc β} {format : String → Except PyExc String}

/-- Phases and names became what `func` and `format` made of them, each in its place. -/
structure Became (func : α → Except PyExc β) (format : String → Except PyExc String)
    (ps : List α) (names : List String) (ps' : List β) (names' : List String) : Prop where
  phases : List.Forall₂ (Returned func) ps ps'
  names : List.Forall₂ (Returned format) names names'

theorem became_append_iff {ps qs : List α} {names ms : List String} {ps' qs' : List β}
    {names' ms' : List String} (h : ps'.length = ps.length ∧ names'.length = names.length) :
    Became func format (ps ++ qs) (names ++ ms) (ps' ++ qs') (names' ++ ms') ↔
      Became func format ps names ps' names' ∧ Became func format qs ms qs' ms' := by
  constructor
  · rintro ⟨hphases, hnames⟩
    obtain ⟨hps, hqs⟩ := (forall₂_append_iff h.1).mp hphases
    obtain ⟨hns, hms⟩ := (forall₂_append_iff h.2).mp hnames
    exact ⟨⟨hps, hns⟩, ⟨hqs, hms⟩⟩
  · rintro ⟨⟨hps, hns⟩, ⟨hqs, hms⟩⟩
    exact ⟨(forall₂_append_iff h.1).mpr ⟨hps, hqs⟩, (forall₂_append_iff h.2).mpr ⟨hns, hms⟩⟩

/-- A node's own name comes after those below it. -/
theorem became_append_name_iff {ps : List α} {names ms : List String} {ps' : List β}
    {names' ms' : List String} (h : ps'.length = ps.length ∧ names'.length = names.length) :
    Became func format ps (names ++ ms) ps' (names' ++ ms') ↔
      Became func format ps names ps' names' ∧ Became func format [] ms [] ms' := by
  have happend : Became func format (ps ++ []) (names ++ ms) (ps' ++ []) (names' ++ ms') ↔
      Became func format ps names ps' names' ∧ Became func format [] ms [] ms' :=
    became_append_iff h
  rwa [List.append_nil, List.append_nil] at happend

theorem formatName_eq_ok_iff (func : α → Except PyExc β) {name name' : Option String} :
    formatName format name = .ok name' ↔
      Became func format [] name.toList [] name'.toList ∧
        (name'.map fun _ ↦ "") = name.map fun _ ↦ "" := by
  cases name with
  | none =>
      cases name' with
      | none => exact ⟨fun _ ↦ ⟨⟨.nil, .nil⟩, rfl⟩, fun _ ↦ rfl⟩
      | some name' => exact ⟨nofun, fun h ↦ nomatch h.2⟩
  | some name =>
      rw [formatName, Except.map_eq_ok_iff]
      constructor
      · rintro ⟨a, ha, rfl⟩
        exact ⟨⟨.nil, .cons ha .nil⟩, rfl⟩
      · rintro ⟨⟨-, hnames⟩, hmap⟩
        cases name' with
        | none => cases hmap
        | some name' =>
            cases hnames with
            | cons ha _ => exact ⟨name', ha, rfl⟩

/-- What a walk of the node comes to: a node of the same shape, with the phases and
names that `func` and `format` made. -/
def Node.Exact (func : α → Except PyExc β) (format : String → Except PyExc String)
    (n : Node α) : Prop :=
  ∀ n', n.traverse func format = .ok n' ↔
    Became func format n.phases n.names n'.phases n'.names ∧ n'.shape = n.shape

def Sequence.Exact (func : α → Except PyExc β) (format : String → Except PyExc String)
    (s : Sequence α) : Prop :=
  ∀ s', s.traverse func format = .ok s' ↔
    Became func format s.phases s.names s'.phases s'.names ∧ s'.shape = s.shape

theorem traverseNodes_eq_ok_iff {ns : List (Node α)} (h : ∀ n ∈ ns, n.Exact func format)
    (ns' : List (Node β)) :
    traverseNodes func format ns = .ok ns' ↔
      Became func format (phasesOf ns) (namesOf ns) (phasesOf ns') (namesOf ns') ∧
        shapesOf ns' = shapesOf ns := by
  induction ns generalizing ns' with
  | nil =>
      cases ns' with
      | nil => exact ⟨fun _ ↦ ⟨⟨.nil, .nil⟩, rfl⟩, fun _ ↦ rfl⟩
      | cons n' ns' => exact ⟨nofun, fun h ↦ nomatch h.2⟩
  | cons n ns ih =>
      have hn : n.Exact func format := h n List.mem_cons_self
      have hns := ih fun m hm ↦ h m (List.mem_cons_of_mem _ hm)
      have hstep : traverseNodes func format (n :: ns) = .ok ns' ↔
          ∃ n', n.traverse func format = .ok n' ∧
            ∃ ns'', traverseNodes func format ns = .ok ns'' ∧ n' :: ns'' = ns' := by
        simp only [traverseNodes, Except.bind_eq_ok_iff, pure, Except.pure, Except.ok.injEq]
      rw [hstep]
      constructor
      · rintro ⟨n', hn', ns'', hns', rfl⟩
        obtain ⟨hbecame, hshape⟩ := (hn n').mp hn'
        obtain ⟨hrest, hshapes⟩ := (hns ns'').mp hns'
        refine ⟨(became_append_iff (sizes_eq hshape)).mpr ⟨hbecame, hrest⟩, ?_⟩
        rw [shapesOf, shapesOf, hshape, hshapes]
      · rintro ⟨hbecame, hshapes⟩
        cases ns' with
        | nil => cases hshapes
        | cons n' ns' =>
            rw [shapesOf, shapesOf, List.cons.injEq] at hshapes
            obtain ⟨hfirst, hrest⟩ := (became_append_iff (sizes_eq hshapes.1)).mp hbecame
            exact ⟨n', (hn n').mpr ⟨hfirst, hshapes.1⟩, ns', (hns ns').mpr ⟨hrest, hshapes.2⟩, rfl⟩

theorem traversePart_eq_ok_iff {o : Option (Sequence α)} (h : ∀ s ∈ o, s.Exact func format)
    (o' : Option (Sequence β)) :
    traversePart func format o = .ok o' ↔
      Became func format (phasesOfPart o) (namesOfPart o) (phasesOfPart o') (namesOfPart o') ∧
        shapeOfPart o' = shapeOfPart o := by
  cases o with
  | none =>
      cases o' with
      | none => exact ⟨fun _ ↦ ⟨⟨.nil, .nil⟩, rfl⟩, fun _ ↦ rfl⟩
      | some s' => exact ⟨nofun, fun h ↦ nomatch h.2⟩
  | some s =>
      rw [traversePart, Except.map_eq_ok_iff]
      constructor
      · rintro ⟨s', hs', rfl⟩
        obtain ⟨hbecame, hshape⟩ := (h s rfl s').mp hs'
        exact ⟨hbecame, congrArg some hshape⟩
      · rintro ⟨hbecame, hshape⟩
        cases o' with
        | none => cases hshape
        | some s' => exact ⟨s', (h s rfl s').mpr ⟨hbecame, Option.some.inj hshape⟩, rfl⟩

/-! ### One lemma for each class -/

theorem exact_phase (p : α) : (Node.phase p).Exact func format := by
  intro t'
  rw [Node.traverse, Except.map_eq_ok_iff]
  constructor
  · rintro ⟨p', hp', rfl⟩
    exact ⟨⟨.cons hp' .nil, .nil⟩, rfl⟩
  · rintro ⟨⟨hphases, -⟩, hshape⟩
    cases t' with
    | phase p' =>
        cases hphases with
        | cons hp' _ => exact ⟨p', hp', rfl⟩
    | _ => cases hshape

/-- A checkpoint keeps its action and its condition. -/
theorem exact_checkpoint (c : Checkpoint) : (Node.checkpoint c).Exact func format := by
  intro t'
  rw [Node.traverse, Except.map_eq_ok_iff]
  constructor
  · rintro ⟨name, hname, rfl⟩
    exact ⟨⟨.nil, .cons hname .nil⟩, rfl⟩
  · rintro ⟨⟨-, hnames⟩, hshape⟩
    cases t' with
    | checkpoint c' =>
        cases hnames with
        | cons hname _ =>
            obtain ⟨name, action, conditional, _⟩ := c
            obtain ⟨name', action', conditional', _⟩ := c'
            simp only [Node.shape, Node.checkpoint.injEq, Checkpoint.mk.injEq, true_and] at hshape
            obtain ⟨rfl, rfl⟩ := hshape
            exact ⟨name', hname, rfl⟩
    | _ => cases hshape

theorem exact_sequence {s : Sequence α} (h : s.Exact func format) :
    (Node.sequence s).Exact func format := by
  intro t'
  rw [Node.traverse, Except.map_eq_ok_iff]
  constructor
  · rintro ⟨s', hs', rfl⟩
    obtain ⟨hbecame, hshape⟩ := (h s').mp hs'
    exact ⟨hbecame, congrArg Node.sequence hshape⟩
  · rintro ⟨hbecame, hshape⟩
    cases t' with
    | sequence s' => exact ⟨s', (h s').mpr ⟨hbecame, Node.sequence.inj hshape⟩, rfl⟩
    | _ => cases hshape

/-- A sequence keeps its class, and the condition if it is a branch. -/
theorem exact_mk (kind : SequenceKind) (name : Option String) {ns : List (Node α)}
    (h : ∀ n ∈ ns, n.Exact func format) : (Sequence.mk kind name ns).Exact func format := by
  rintro ⟨kind', name', ns'⟩
  have hstep : (Sequence.mk kind name ns).traverse func format = .ok (.mk kind' name' ns') ↔
      traverseNodes func format ns = .ok ns' ∧ formatName format name = .ok name' ∧ kind' = kind := by
    simp only [Sequence.traverse, Except.bind_eq_ok_iff, pure, Except.pure, Except.ok.injEq,
      Sequence.mk.injEq]
    constructor
    · rintro ⟨_, h₁, _, h₂, rfl, rfl, rfl⟩
      exact ⟨h₁, h₂, rfl⟩
    · rintro ⟨h₁, h₂, rfl⟩
      exact ⟨ns', h₁, name', h₂, rfl, rfl, rfl⟩
  rw [hstep, traverseNodes_eq_ok_iff h, formatName_eq_ok_iff func]
  constructor
  · rintro ⟨⟨b₁, e₁⟩, ⟨b₂, e₂⟩, rfl⟩
    refine ⟨(became_append_name_iff (sizes_eq_nodes e₁)).mpr ⟨b₁, b₂⟩, ?_⟩
    simp only [Sequence.shape, e₁, e₂]
  · rintro ⟨hbecame, hshape⟩
    simp only [Sequence.shape, Sequence.mk.injEq] at hshape
    obtain ⟨rfl, e₂, e₁⟩ := hshape
    obtain ⟨b₁, b₂⟩ := (became_append_name_iff (sizes_eq_nodes e₁)).mp hbecame
    exact ⟨⟨b₁, e₁⟩, ⟨b₂, e₂⟩, rfl⟩

/-- A group keeps each of its parts where it is. -/
theorem exact_group {setup main teardown : Option (Sequence α)} (name : Option String)
    (hsetup : ∀ s ∈ setup, s.Exact func format) (hmain : ∀ s ∈ main, s.Exact func format)
    (hteardown : ∀ s ∈ teardown, s.Exact func format) :
    (Node.group (.mk setup main teardown name)).Exact func format := by
  intro t'
  have hstep : (Node.group (.mk setup main teardown name)).traverse func format = .ok t' ↔
      ∃ setup' main' teardown' name',
        (traversePart func format setup = .ok setup' ∧ traversePart func format main = .ok main' ∧
          traversePart func format teardown = .ok teardown' ∧ formatName format name = .ok name') ∧
        Node.group (.mk setup' main' teardown' name') = t' := by
    simp only [Node.traverse, Group.traverse, Except.map_eq_ok_iff, Except.bind_eq_ok_iff, pure,
      Except.pure, Except.ok.injEq]
    constructor
    · rintro ⟨_, ⟨setup', h₁, main', h₂, teardown', h₃, name', h₄, rfl⟩, rfl⟩
      exact ⟨setup', main', teardown', name', ⟨h₁, h₂, h₃, h₄⟩, rfl⟩
    · rintro ⟨setup', main', teardown', name', ⟨h₁, h₂, h₃, h₄⟩, rfl⟩
      exact ⟨_, ⟨setup', h₁, main', h₂, teardown', h₃, name', h₄, rfl⟩, rfl⟩
  rw [hstep]
  simp only [traversePart_eq_ok_iff hsetup, traversePart_eq_ok_iff hmain,
    traversePart_eq_ok_iff hteardown, formatName_eq_ok_iff func]
  constructor
  · rintro ⟨setup', main', teardown', name', ⟨⟨b₁, e₁⟩, ⟨b₂, e₂⟩, ⟨b₃, e₃⟩, b₄, e₄⟩, rfl⟩
    have b₃₄ := (became_append_name_iff (sizes_eq_part e₃)).mpr ⟨b₃, b₄⟩
    have b₂₄ := (became_append_iff (sizes_eq_part e₂)).mpr ⟨b₂, b₃₄⟩
    refine ⟨(became_append_iff (sizes_eq_part e₁)).mpr ⟨b₁, b₂₄⟩, ?_⟩
    simp only [Node.shape, Group.shape, e₁, e₂, e₃, e₄]
  · rintro ⟨hbecame, hshape⟩
    cases t' with
    | group g' =>
        obtain ⟨setup', main', teardown', name'⟩ := g'
        simp only [Node.shape, Group.shape, Node.group.injEq, Group.mk.injEq] at hshape
        obtain ⟨e₁, e₂, e₃, e₄⟩ := hshape
        obtain ⟨b₁, hbecame⟩ := (became_append_iff (sizes_eq_part e₁)).mp hbecame
        obtain ⟨b₂, hbecame⟩ := (became_append_iff (sizes_eq_part e₂)).mp hbecame
        obtain ⟨b₃, b₄⟩ := (became_append_name_iff (sizes_eq_part e₃)).mp hbecame
        exact ⟨setup', main', teardown', name', ⟨⟨b₁, e₁⟩, ⟨b₂, e₂⟩, ⟨b₃, e₃⟩, b₄, e₄⟩, rfl⟩
    | _ => cases hshape

/-- A walk comes to a tree exactly if the tree has the shape of the one it began with,
and the phases and names that `func` and `format` made. -/
theorem traverse_eq_ok_iff (t : Node α) (t' : Node β) :
    t.traverse func format = .ok t' ↔
      Became func format t.phases t.names t'.phases t'.names ∧ t'.shape = t.shape := by
  have hexact : t.Exact func format := by
    induction t using Node.tree_induction (S := Sequence.Exact func format) with
    | phase p => exact exact_phase p
    | checkpoint c => exact exact_checkpoint c
    | sequence s h => exact exact_sequence h
    | group setup main teardown name hsetup hmain hteardown =>
        exact exact_group name hsetup hmain hteardown
    | nodes kind name ns h => exact exact_mk kind name h
  exact hexact t'

/-! ### When a walk returns -/

/-- `f` returns for each of them. -/
def Answers {δ ε : Type} (f : δ → Except PyExc ε) (xs : List δ) : Prop :=
  ∀ x ∈ xs, ∃ y, Returned f x y

theorem answers_append {δ ε : Type} {f : δ → Except PyExc ε} {xs ys : List δ} :
    Answers f (xs ++ ys) ↔ Answers f xs ∧ Answers f ys := List.forall_mem_append

theorem answers_of_forall₂ {δ ε : Type} {f : δ → Except PyExc ε} {xs : List δ} {ys : List ε}
    (h : List.Forall₂ (Returned f) xs ys) : Answers f xs := by
  induction h with
  | nil => exact nofun
  | cons hx _ ih =>
      intro x hmem
      rcases List.mem_cons.mp hmem with rfl | hmem
      · exact ⟨_, hx⟩
      · exact ih x hmem

theorem formatName_returns {name : Option String} (h : Answers format name.toList) :
    ∃ name', formatName format name = .ok name' := by
  cases name with
  | none => exact ⟨none, rfl⟩
  | some name =>
      obtain ⟨name', hname⟩ := h name List.mem_cons_self
      exact ⟨some name', Except.map_eq_ok_iff.mpr ⟨name', hname, rfl⟩⟩

theorem traverse_returns {t : Node α} (hphases : Answers func t.phases)
    (hnames : Answers format t.names) : ∃ t', t.traverse func format = .ok t' := by
  induction t using Node.tree_induction
      (S := fun s ↦ Answers func s.phases → Answers format s.names →
        ∃ s', s.traverse func format = .ok s') with
  | phase p =>
      obtain ⟨p', hp⟩ := hphases p List.mem_cons_self
      exact ⟨.phase p', Except.map_eq_ok_iff.mpr ⟨p', hp, rfl⟩⟩
  | checkpoint c =>
      obtain ⟨name, hname⟩ := hnames c.name List.mem_cons_self
      exact ⟨.checkpoint { c with name }, Except.map_eq_ok_iff.mpr ⟨name, hname, rfl⟩⟩
  | sequence s h =>
      obtain ⟨s', hs⟩ := h hphases hnames
      exact ⟨.sequence s', Except.map_eq_ok_iff.mpr ⟨s', hs, rfl⟩⟩
  | group setup main teardown name hsetup hmain hteardown =>
      have hpart {o : Option (Sequence α)}
          (h : ∀ s ∈ o, Answers func s.phases → Answers format s.names →
            ∃ s', s.traverse func format = .ok s')
          (hphases : Answers func (phasesOfPart o)) (hnames : Answers format (namesOfPart o)) :
          ∃ o', traversePart func format o = .ok o' := by
        cases o with
        | none => exact ⟨none, rfl⟩
        | some s =>
            obtain ⟨s', hs⟩ := h s rfl hphases hnames
            exact ⟨some s', Except.map_eq_ok_iff.mpr ⟨s', hs, rfl⟩⟩
      simp only [Node.phases, Group.phases, answers_append] at hphases
      simp only [Node.names, Group.names, answers_append] at hnames
      obtain ⟨setup', hsetup'⟩ := hpart hsetup hphases.1 hnames.1
      obtain ⟨main', hmain'⟩ := hpart hmain hphases.2.1 hnames.2.1
      obtain ⟨teardown', hteardown'⟩ := hpart hteardown hphases.2.2 hnames.2.2.1
      obtain ⟨name', hname'⟩ := formatName_returns hnames.2.2.2
      refine ⟨.group (.mk setup' main' teardown' name'), ?_⟩
      rw [Node.traverse, Group.traverse, hsetup', hmain', hteardown', hname']
      rfl
  | nodes kind name ns h hphases hnames =>
      simp only [Sequence.names, answers_append] at hnames
      obtain ⟨ns', hns'⟩ : ∃ ns', traverseNodes func format ns = .ok ns' := by
        replace hphases : Answers func (phasesOf ns) := hphases
        replace hnames := hnames.1
        induction ns with
        | nil => exact ⟨[], rfl⟩
        | cons n ns ih =>
            simp only [phasesOf, answers_append] at hphases
            simp only [namesOf, answers_append] at hnames
            obtain ⟨n', hn⟩ := h n List.mem_cons_self hphases.1 hnames.1
            obtain ⟨ns', hns⟩ := ih (fun m hm ↦ h m (List.mem_cons_of_mem _ hm)) hphases.2 hnames.2
            refine ⟨n' :: ns', ?_⟩
            rw [traverseNodes, hn, hns]
            rfl
      obtain ⟨name', hname'⟩ := formatName_returns hnames.2
      refine ⟨.mk kind name' ns', ?_⟩
      rw [Sequence.traverse, hns', hname']
      rfl

/-- A walk returns exactly if `func` does for every phase and `format` for every name. -/
theorem traverse_returns_iff (t : Node α) :
    (∃ t', t.traverse func format = .ok t') ↔ Answers func t.phases ∧ Answers format t.names := by
  constructor
  · rintro ⟨t', h⟩
    obtain ⟨hbecame, -⟩ := (traverse_eq_ok_iff t t').mp h
    exact ⟨answers_of_forall₂ hbecame.phases, answers_of_forall₂ hbecame.names⟩
  · rintro ⟨hphases, hnames⟩
    exact traverse_returns hphases hnames

end Walk

/-! ## What stays of a tree -/

/-- All of a tree but its phases. -/
def Node.skeleton (t : Node α) : List String × Node Unit := (t.names, t.shape)

/-- The names that were kept are those that were there. -/
theorem forall₂_returned_self {names names' : List String} :
    List.Forall₂ (Returned fun name ↦ (.ok name : Except PyExc String)) names names' ↔
      names' = names := by
  have h : List.Forall₂ (Returned fun name ↦ (.ok (id name) : Except PyExc String)) names names' ↔
      names' = names.map id := forall₂_returned_ok
  rwa [List.map_id] at h

theorem applyToAllPhases_eq_ok_iff {func : α → Except PyExc β} {t : Node α} {t' : Node β} :
    t.applyToAllPhases func = .ok t' ↔
      List.Forall₂ (Returned func) t.phases t'.phases ∧ t'.skeleton = t.skeleton := by
  rw [Node.applyToAllPhases, traverse_eq_ok_iff, Node.skeleton, Node.skeleton, Prod.mk.injEq]
  constructor
  · rintro ⟨⟨hphases, hnames⟩, hshape⟩
    exact ⟨hphases, forall₂_returned_self.mp hnames, hshape⟩
  · rintro ⟨hphases, hnames, hshape⟩
    exact ⟨⟨hphases, forall₂_returned_self.mpr hnames⟩, hshape⟩

/-- A tree is its phases and its skeleton. -/
theorem eq_of_phases_of_skeleton {t t' : Node α} (hphases : t'.phases = t.phases)
    (hskeleton : t'.skeleton = t.skeleton) : t' = t := by
  have hself {t' : Node α} (hphases : t'.phases = t.phases) (hskeleton : t'.skeleton = t.skeleton) :
      t.applyToAllPhases .ok = .ok t' := by
    apply applyToAllPhases_eq_ok_iff.mpr
    refine ⟨?_, hskeleton⟩
    rw [hphases]
    exact List.forall₂_same.mpr fun _ _ ↦ rfl
  exact Except.ok.inj ((hself hphases hskeleton).symm.trans (hself rfl rfl))

theorem applyToAllPhases_returns_iff {func : α → Except PyExc β} {t : Node α} :
    (∃ t', t.applyToAllPhases func = .ok t') ↔ Answers func t.phases := by
  rw [Node.applyToAllPhases, traverse_returns_iff]
  constructor
  · rintro ⟨hphases, -⟩
    exact hphases
  · intro hphases
    exact ⟨hphases, fun name _ ↦ ⟨name, rfl⟩⟩

/-- One function after the other comes to what both at once come to. -/
theorem applyToAllPhases_bind {g : α → Except PyExc β} {f : β → Except PyExc γ} {t : Node α}
    {t₂ : Node γ} :
    (∃ t₁, t.applyToAllPhases g = .ok t₁ ∧ t₁.applyToAllPhases f = .ok t₂) ↔
      t.applyToAllPhases (fun p ↦ g p >>= f) = .ok t₂ := by
  rw [applyToAllPhases_eq_ok_iff, forall₂_returned_bind]
  constructor
  · rintro ⟨t₁, h₁, h₂⟩
    obtain ⟨hphases₁, hskeleton₁⟩ := applyToAllPhases_eq_ok_iff.mp h₁
    obtain ⟨hphases₂, hskeleton₂⟩ := applyToAllPhases_eq_ok_iff.mp h₂
    exact ⟨⟨t₁.phases, hphases₁, hphases₂⟩, hskeleton₂.trans hskeleton₁⟩
  · rintro ⟨⟨ps, hps, hphases⟩, hskeleton⟩
    obtain ⟨t₁, h₁⟩ := applyToAllPhases_returns_iff.mpr (answers_of_forall₂ hps)
    obtain ⟨hphases₁, hskeleton₁⟩ := applyToAllPhases_eq_ok_iff.mp h₁
    obtain rfl := forall₂_returned_unique hps hphases₁
    exact ⟨t₁, h₁, applyToAllPhases_eq_ok_iff.mpr ⟨hphases, hskeleton.trans hskeleton₁.symm⟩⟩

/-- A function that raises nothing. -/
theorem applyToAllPhases_ok (f : α → β) (t : Node α) :
    ∃ t', t.applyToAllPhases (fun p ↦ .ok (f p)) = .ok t' ∧ t'.phases = t.phases.map f ∧
      t'.skeleton = t.skeleton := by
  have hanswers : Answers (fun p ↦ .ok (f p)) t.phases := fun p _ ↦ ⟨f p, rfl⟩
  obtain ⟨t', h⟩ := applyToAllPhases_returns_iff.mpr hanswers
  obtain ⟨hphases, hskeleton⟩ := applyToAllPhases_eq_ok_iff.mp h
  exact ⟨t', h, forall₂_returned_ok.mp hphases, hskeleton⟩

/-! ## The trees that are executed -/

section Execution

variable (d : α → PhaseDescriptor)

mutual

/-- The tree as the executor gets it. -/
def Node.toPhaseNode : Node α → PhaseNode
  | .phase p => .phase (d p)
  | .checkpoint c => .checkpoint c
  | .sequence s => .sequence (Sequence.toPhaseSequence s)
  | .group g => .group (Group.toPhaseGroup g)

def Sequence.toPhaseSequence : Sequence α → PhaseSequence
  | .mk kind name nodes => .mk kind name (toPhaseNodes nodes)

def toPhaseNodes : List (Node α) → List PhaseNode
  | [] => []
  | n :: ns => Node.toPhaseNode n :: toPhaseNodes ns

def Group.toPhaseGroup : Group α → PhaseGroup
  | .mk setup main teardown name =>
      .mk (toPhasePart setup) (toPhasePart main) (toPhasePart teardown) name

def toPhasePart : Option (Sequence α) → Option PhaseSequence
  | none => none
  | some s => some (Sequence.toPhaseSequence s)

end

/-- The phases among the nodes of a tree. -/
def selectPhases (nodes : List PhaseNode) : List PhaseDescriptor :=
  nodes.filterMap fun
    | .phase p => some p
    | _ => none

/-- The phases of a tree are those that `all_phases` gives the executor. -/
theorem selectPhases_toPhaseNode (t : Node α) :
    selectPhases (t.toPhaseNode d :: (t.toPhaseNode d).nodesBelow) = t.phases.map d := by
  induction t using Node.tree_induction
      (S := fun s ↦ (s.toPhaseSequence d).allPhases = s.phases.map d) with
  | phase p => rfl
  | checkpoint c => rfl
  | sequence s h => exact h
  | group setup main teardown name hsetup hmain hteardown =>
      have hpart (o : Option (Sequence α))
          (h : ∀ s ∈ o, (s.toPhaseSequence d).allPhases = s.phases.map d) :
          selectPhases (allNodesOfPart (toPhasePart d o)) = (phasesOfPart o).map d := by
        cases o with
        | none => rfl
        | some s => exact h s rfl
      have hs := hpart setup hsetup
      have hm := hpart main hmain
      have ht := hpart teardown hteardown
      unfold selectPhases at hs hm ht ⊢
      simp only [Node.toPhaseNode, Group.toPhaseGroup, PhaseNode.nodesBelow, List.filterMap_cons,
        List.filterMap_append, hs, hm, ht, Node.phases, Group.phases, List.map_append, List.append_assoc]
  | nodes kind name ns h =>
      induction ns with
      | nil => rfl
      | cons n ns ih =>
          have hn := h n List.mem_cons_self
          have hns : selectPhases (allNodesOf (toPhaseNodes d ns)) = (phasesOf ns).map d :=
            ih fun m hm ↦ h m (List.mem_cons_of_mem _ hm)
          change selectPhases (n.toPhaseNode d :: ((n.toPhaseNode d).nodesBelow ++
            allNodesOf (toPhaseNodes d ns))) = (n.phases ++ phasesOf ns).map d
          rw [List.map_append, ← hn, ← hns, ← List.cons_append]
          exact List.filterMap_append

end Execution

/-! ## All four operations -/

/-- What an operation comes to that does `own` to the phases and `format` to the names of
a tree, and nothing else: it returns if they all do, and then this tree. -/
structure ActsAs (own : α → Except PyExc β) (format : String → Except PyExc String) (t : Node α)
    (result : Except PyExc (Node β)) : Prop where
  comesTo : ∀ t', result = .ok t' ↔ List.Forall₂ (Returned own) t.phases t'.phases ∧
    List.Forall₂ (Returned format) t.names t'.names ∧ t'.shape = t.shape
  returns : (∃ t', result = .ok t') ↔ Answers own t.phases ∧ Answers format t.names

theorem traverse_actsAs (own : α → Except PyExc β) (format : String → Except PyExc String)
    (t : Node α) : ActsAs own format t (t.traverse own format) where
  comesTo t' := by
    rw [traverse_eq_ok_iff]
    constructor
    · rintro ⟨⟨hphases, hnames⟩, hshape⟩
      exact ⟨hphases, hnames, hshape⟩
    · rintro ⟨hphases, hnames, hshape⟩
      exact ⟨⟨hphases, hnames⟩, hshape⟩
  returns := traverse_returns_iff t

variable {V W : Type}

theorem transformations_preserve_structure (py : UserObjects V W)
    (t : Node (DescriptorArgs.PhaseDescriptor V W))
    (f g : DescriptorArgs.PhaseDescriptor V W → DescriptorArgs.PhaseDescriptor V W)
    (kwargs subplugs : List (String × V)) :
    (∃ t', t.applyToAllPhases (fun p ↦ .ok (f p)) = .ok t' ∧ t'.phases = t.phases.map f ∧
      t'.skeleton = t.skeleton) ∧
    (t.applyToAllPhases (fun p ↦ .ok (g p)) >>= fun t' ↦ t'.applyToAllPhases fun p ↦ .ok (f p)) =
      t.applyToAllPhases (fun p ↦ .ok (f (g p))) ∧
    t.loadCodeInfo = t.applyToAllPhases (·.loadCodeInfo) ∧
    (∀ t', t.loadCodeInfo = .ok t' ↔
      List.Forall₂ (Returned (·.loadCodeInfo)) t.phases t'.phases ∧ t'.skeleton = t.skeleton) ∧
    ActsAs (·.withArgs py kwargs) (py.formatText kwargs) t (t.withArgs py kwargs) ∧
    ActsAs (·.withPlugs py subplugs) (py.formatText subplugs) t (t.withPlugs py subplugs) := by
  refine ⟨applyToAllPhases_ok f t, ?_, rfl, fun t' ↦ applyToAllPhases_eq_ok_iff,
    traverse_actsAs _ _ t, traverse_actsAs _ _ t⟩
  obtain ⟨t₁, h₁, -⟩ := applyToAllPhases_ok g t
  obtain ⟨t₂, h₂, -⟩ := applyToAllPhases_ok f t₁
  have hboth : t.applyToAllPhases (fun p ↦ .ok (f (g p))) = .ok t₂ :=
    applyToAllPhases_bind.mp ⟨t₁, h₁, h₂⟩
  rw [h₁, hboth]
  exact h₂

end OpenHtf.PhaseTree
