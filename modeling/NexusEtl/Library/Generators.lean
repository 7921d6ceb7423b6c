import Mathlib.Data.List.Forall2

/-!
# Generators

A generator acts on a shared state and hands out items one by one until it ends
or raises. Its consumer decides how many items it asks for, and a generator that
is given up at an item is closed there. Generators are built from one another by
loops that carry a state, so what a loop hands out is shown by one step of its
body.
-/

set_option autoImplicit false

namespace NexusEtl.Library

/-- `next` is told the state before the change; `close` runs when the generator is given up at
the item. -/
inductive Gen (W ε α : Type) : Type
  | done
  | raise (error : ε)
  | yield (item : α) (close : W → W) (rest : Gen W ε α)
  | act (change : W → W) (next : W → Gen W ε α)

namespace Gen

variable {W ε α β σ : Type}

/-- One effect, then what follows its result or its error. -/
def perform (f : W → Except ε β × W) (next : β → Gen W ε α) (raised : ε → Gen W ε α) :
    Gen W ε α :=
  act (fun w => (f w).2) fun w => match (f w).1 with
    | .ok b => next b
    | .error e => raised e

def ofList (l : List α) : Gen W ε α := l.foldr (fun a rest => yield a id rest) done

/-- Hand out what `g` hands out, then go on; `close` is what giving up here closes besides. -/
def chain (close : W → W) (raised : ε → Gen W ε α) (g rest : Gen W ε α) : Gen W ε α :=
  match g with
  | done => rest
  | raise e => raised e
  | yield a own g => yield a (fun w => close (own w)) (chain close raised g rest)
  | act change next => act change fun w => chain close raised (next w) rest

/-- `for item in g:`. The body is told how the source is closed and how the loop goes on. -/
structure Loop (W ε α β σ : Type) where
  body : σ → α → (W → W) → (σ → Gen W ε β) → Gen W ε β
  ended : σ → Gen W ε β
  raised : σ → ε → Gen W ε β

def loop (l : Loop W ε α β σ) (g : Gen W ε α) (s : σ) : Gen W ε β :=
  match g with
  | done => l.ended s
  | raise e => l.raised s e
  | yield a close rest => l.body s a close fun s => loop l rest s
  | act change next => act change fun w => loop l (next w) s

/-- A loop that hands out one item for each item of its source. -/
def each (process : α → W → Except ε β × W) (g : Gen W ε α) : Gen W ε β :=
  loop { body := fun _ a close next => perform (process a) (fun b => yield b close (next ())) raise
         ended := fun _ => done
         raised := fun _ => raise } g ()

/-- `for item in items:` inside another loop, which `close` closes. -/
def eachOf (process : α → W → Except ε β × W) (close : W → W) (items : List α)
    (rest : Gen W ε β) : Gen W ε β :=
  items.foldr (fun a rest => perform (process a) (fun b => yield b close rest) raise) rest

/-- The items up to the end or the error, and the state then. -/
def drain : Gen W ε α → W → (List α × Option ε) × W
  | done, w => (([],none),w)
  | raise e, w => (([],some e),w)
  | yield a _ rest, w => ((a::(drain rest w).1.1,(drain rest w).1.2),(drain rest w).2)
  | act change next, w => drain (next w) (change w)

/-- A consumer asks for at most so many items and then gives the generator up. -/
def consume : Nat → Gen W ε α → (W → W) → W → (List α × Option ε) × W
  | 0, _, close, w => (([],none),close w)
  | _+1, done, _, w => (([],none),w)
  | _+1, raise e, _, w => (([],some e),w)
  | n+1, yield a close rest, _, w =>
    ((a::(consume n rest close w).1.1,(consume n rest close w).1.2),(consume n rest close w).2)
  | n+1, act change next, close, w => consume (n+1) (next w) close (change w)
termination_by structural _ g => g

section Traces

/-- The items that a run can hand out that ends, whatever others do to the state meanwhile. -/
def Hands : Gen W ε α → List α → Prop
  | done, l => l = []
  | raise _, _ => False
  | yield a _ rest, l => ∃ m, l = a::m ∧ Hands rest m
  | act _ next, l => ∃ w, Hands (next w) l

theorem hands_of_drain {g : Gen W ε α} {w w' : W} {l : List α}
    (h : g.drain w = ((l,none),w')) : g.Hands l := by
  induction g generalizing w l with
  | done => exact (congrArg (fun r => r.1.1) h).symm
  | raise e => cases congrArg (fun r => r.1.2) h
  | yield a close rest ih =>
    obtain ⟨hpair,hw⟩ := Prod.mk.inj h
    obtain ⟨hlist,hend⟩ := Prod.mk.inj hpair
    exact ⟨_,hlist.symm,ih (Prod.ext (Prod.ext rfl hend) hw)⟩
  | act change next ih => exact ⟨w,ih w h⟩

theorem hands_drain {g : Gen W ε α} {w : W} (h : (g.drain w).1.2 = none) :
    g.Hands (g.drain w).1.1 := hands_of_drain (Prod.ext (Prod.ext rfl h) rfl)

theorem hands_ofList {l m : List α} : (ofList l : Gen W ε α).Hands m ↔ m = l := by
  induction l generalizing m with
  | nil => rfl
  | cons a l ih =>
    constructor
    · rintro ⟨rest,rfl,hrest⟩
      rw [ih.mp hrest]
    · rintro rfl
      exact ⟨l,rfl,ih.mpr rfl⟩

theorem hands_perform {f : W → Except ε β × W} {next : β → Gen W ε α} {raised : ε → Gen W ε α}
    {l : List α} (hraised : ∀ e, ¬(raised e).Hands l) (h : (perform f next raised).Hands l) :
    ∃ w b, (f w).1 = .ok b ∧ (next b).Hands l := by
  obtain ⟨w,h⟩ := h
  dsimp only at h
  cases hf : (f w).1 with
  | error e =>
    rw [hf] at h
    exact absurd h (hraised e)
  | ok b =>
    rw [hf] at h
    exact ⟨w,b,hf,h⟩

theorem hands_chain {close : W → W} {raised : ε → Gen W ε α} {g rest : Gen W ε α} {l : List α}
    (hraised : ∀ e l, ¬(raised e).Hands l) (h : (chain close raised g rest).Hands l) :
    ∃ front back, l = front ++ back ∧ g.Hands front ∧ rest.Hands back := by
  induction g generalizing l with
  | done => exact ⟨[],l,rfl,rfl,h⟩
  | raise e => exact absurd h (hraised e l)
  | yield a own g ih =>
    obtain ⟨m,rfl,hm⟩ := h
    obtain ⟨front,back,rfl,hfront,hback⟩ := ih hm
    exact ⟨a::front,back,rfl,⟨front,rfl,hfront⟩,hback⟩
  | act change next ih =>
    obtain ⟨w,hw⟩ := h
    obtain ⟨front,back,hl,hfront,hback⟩ := ih w hw
    exact ⟨front,back,hl,⟨w,hfront⟩,hback⟩

/-- What a loop hands out stands to the items of its source as one step of the body says. -/
theorem hands_loop {l : Loop W ε α β σ} {r : σ → List α → List β → Prop}
    (hended : ∀ s ys, (l.ended s).Hands ys → r s [] ys)
    (hraised : ∀ s e ys, ¬(l.raised s e).Hands ys)
    (hbody : ∀ s a close next (p : List α → Prop),
      (∀ s ys, (next s).Hands ys → ∃ xs, p xs ∧ r s xs ys) →
      ∀ ys, (l.body s a close next).Hands ys → ∃ xs, p xs ∧ r s (a::xs) ys)
    {g : Gen W ε α} {s : σ} {ys : List β} (h : (loop l g s).Hands ys) :
    ∃ xs, g.Hands xs ∧ r s xs ys := by
  induction g generalizing s ys with
  | done => exact ⟨[],rfl,hended s ys h⟩
  | raise e => exact absurd h (hraised s e ys)
  | yield a close rest ih =>
    obtain ⟨xs,hxs,hr⟩ := hbody s a close _ rest.Hands (fun s ys hys => ih hys) ys h
    exact ⟨a::xs,⟨xs,rfl,hxs⟩,hr⟩
  | act change next ih =>
    obtain ⟨w,hw⟩ := h
    obtain ⟨xs,hxs,hr⟩ := ih w hw
    exact ⟨xs,⟨w,hxs⟩,hr⟩

theorem hands_each {process : α → W → Except ε β × W} {g : Gen W ε α} {ys : List β}
    (h : (each process g).Hands ys) :
    ∃ xs, g.Hands xs ∧ List.Forall₂ (fun a b => ∃ w, (process a w).1 = .ok b) xs ys := by
  apply hands_loop (r := fun _ => List.Forall₂ fun a b => ∃ w, (process a w).1 = .ok b) _ _ _ h
  · rintro _ ys rfl
    exact .nil
  · exact fun _ _ _ => id
  · intro _ a close next p hnext ys hys
    obtain ⟨w,b,hb,m,rfl,hm⟩ := hands_perform (fun _ => id) hys
    obtain ⟨xs,hxs,hall⟩ := hnext () m hm
    exact ⟨xs,hxs,.cons ⟨w,hb⟩ hall⟩

theorem hands_eachOf {process : α → W → Except ε β × W} {close : W → W} {items : List α}
    {rest : Gen W ε β} {ys : List β} (h : (eachOf process close items rest).Hands ys) :
    ∃ front back, ys = front ++ back ∧ rest.Hands back ∧
      List.Forall₂ (fun a b => ∃ w, (process a w).1 = .ok b) items front := by
  induction items generalizing ys with
  | nil => exact ⟨[],ys,rfl,h,.nil⟩
  | cons a items ih =>
    obtain ⟨w,b,hb,m,rfl,hm⟩ := hands_perform (fun _ => id) h
    obtain ⟨front,back,rfl,hback,hall⟩ := ih hm
    exact ⟨b::front,back,rfl,hback,.cons ⟨w,hb⟩ hall⟩

/-- The items that a run can have handed out when it raises or is given up, or ends. -/
def Begins : Gen W ε α → List α → Prop
  | done, l => l = []
  | raise _, l => l = []
  | yield a _ rest, l => l = [] ∨ ∃ m, l = a::m ∧ Begins rest m
  | act _ next, l => l = [] ∨ ∃ w, Begins (next w) l

theorem begins_nil (g : Gen W ε α) : g.Begins [] := by
  cases g with
  | done => rfl
  | raise e => rfl
  | yield a close rest => exact .inl rfl
  | act change next => exact .inl rfl

theorem begins_drain (g : Gen W ε α) (w : W) : g.Begins (g.drain w).1.1 := by
  induction g generalizing w with
  | done => rfl
  | raise e => rfl
  | yield a close rest ih => exact .inr ⟨_,rfl,ih w⟩
  | act change next ih => exact .inr ⟨w,ih w (change w)⟩

theorem begins_consume (g : Gen W ε α) (n : Nat) (close : W → W) (w : W) :
    g.Begins (g.consume n close w).1.1 := by
  induction g generalizing n close w with
  | done => cases n <;> rfl
  | raise e => cases n <;> rfl
  | yield a own rest ih =>
    cases n with
    | zero => exact .inl rfl
    | succ n => exact .inr ⟨_,rfl,ih n own w⟩
  | act change next ih =>
    cases n with
    | zero => exact .inl rfl
    | succ n => exact .inr ⟨w,ih w (n+1) close (change w)⟩

theorem begins_ofList {l m : List α} (h : (ofList l : Gen W ε α).Begins m) : m <+: l := by
  induction l generalizing m with
  | nil =>
    obtain rfl : m = [] := h
    exact List.prefix_rfl
  | cons a l ih =>
    obtain rfl | ⟨rest,rfl,hrest⟩ := h
    · exact List.nil_prefix
    · exact (List.prefix_cons_inj a).mpr (ih hrest)

/-- What a loop has handed out stands to the items of its source as one step of the body says. -/
theorem begins_loop {l : Loop W ε α β σ} {r : σ → List α → List β → Prop}
    (hnil : ∀ s, r s [] []) (hended : ∀ s ys, (l.ended s).Begins ys → r s [] ys)
    (hraised : ∀ s e ys, (l.raised s e).Begins ys → r s [] ys)
    (hbody : ∀ s a close next (p : List α → Prop),
      (∀ s ys, (next s).Begins ys → ∃ xs, p xs ∧ r s xs ys) →
      ∀ ys, (l.body s a close next).Begins ys → ∃ xs, p xs ∧ r s (a::xs) ys)
    {g : Gen W ε α} {s : σ} {ys : List β} (h : (loop l g s).Begins ys) :
    ∃ xs, g.Begins xs ∧ r s xs ys := by
  induction g generalizing s ys with
  | done => exact ⟨[],rfl,hended s ys h⟩
  | raise e => exact ⟨[],rfl,hraised s e ys h⟩
  | yield a close rest ih =>
    obtain ⟨xs,hxs,hr⟩ := hbody s a close _ rest.Begins (fun s ys hys => ih hys) ys h
    exact ⟨a::xs,.inr ⟨xs,rfl,hxs⟩,hr⟩
  | act change next ih =>
    obtain rfl | ⟨w,hw⟩ := h
    · exact ⟨[],.inl rfl,hnil s⟩
    · obtain ⟨xs,hxs,hr⟩ := ih w hw
      exact ⟨xs,.inr ⟨w,hxs⟩,hr⟩

end Traces

section Views

variable {V : Type} (v : W → V)

/-- No effect of the generator shows in the view. -/
def Keeps : Gen W ε α → Prop
  | done => True
  | raise _ => True
  | yield _ close rest => (∀ w, v (close w) = v w) ∧ Keeps rest
  | act change next => (∀ w, v (change w) = v w) ∧ ∀ w, Keeps (next w)

variable {v}

theorem Keeps.drain {g : Gen W ε α} (h : g.Keeps v) (w : W) : v (g.drain w).2 = v w := by
  induction g generalizing w with
  | done => rfl
  | raise e => rfl
  | yield a close rest ih => exact ih h.2 w
  | act change next ih => exact (ih w (h.2 w) (change w)).trans (h.1 w)

theorem Keeps.consume {g : Gen W ε α} (h : g.Keeps v) (n : Nat) {close : W → W}
    (hclose : ∀ w, v (close w) = v w) (w : W) : v (g.consume n close w).2 = v w := by
  induction g generalizing n close w with
  | done => cases n with
    | zero => exact hclose w
    | succ n => rfl
  | raise e => cases n with
    | zero => exact hclose w
    | succ n => rfl
  | yield a own rest ih => cases n with
    | zero => exact hclose w
    | succ n => exact ih h.2 n h.1 w
  | act change next ih => cases n with
    | zero => exact hclose w
    | succ n => exact (ih w (h.2 w) (n + 1) hclose (change w)).trans (h.1 w)

theorem keeps_ofList (l : List α) : (ofList l : Gen W ε α).Keeps v := by
  induction l with
  | nil => trivial
  | cons a l ih => exact ⟨fun _ => rfl,ih⟩

theorem keeps_perform {f : W → Except ε β × W} {next : β → Gen W ε α} {raised : ε → Gen W ε α}
    (hf : ∀ w, v (f w).2 = v w) (hnext : ∀ b, (next b).Keeps v) (hraised : ∀ e, (raised e).Keeps v) :
    (perform f next raised).Keeps v := by
  refine ⟨hf,fun w => ?_⟩
  dsimp only
  split
  · exact hnext _
  · exact hraised _

theorem keeps_chain {close : W → W} {raised : ε → Gen W ε α} {g rest : Gen W ε α}
    (hclose : ∀ w, v (close w) = v w) (hraised : ∀ e, (raised e).Keeps v) (hg : g.Keeps v)
    (hrest : rest.Keeps v) : (chain close raised g rest).Keeps v := by
  induction g with
  | done => exact hrest
  | raise e => exact hraised e
  | yield a own g ih => exact ⟨fun w => (hclose _).trans (hg.1 w),ih hg.2⟩
  | act change next ih => exact ⟨hg.1,fun w => ih w (hg.2 w)⟩

theorem keeps_loop {l : Loop W ε α β σ} (hended : ∀ s, (l.ended s).Keeps v)
    (hraised : ∀ s e, (l.raised s e).Keeps v)
    (hbody : ∀ s a close next, (∀ w, v (close w) = v w) → (∀ s, (next s).Keeps v) →
      (l.body s a close next).Keeps v)
    {g : Gen W ε α} (hg : g.Keeps v) (s : σ) : (loop l g s).Keeps v := by
  induction g generalizing s with
  | done => exact hended s
  | raise e => exact hraised s e
  | yield a close rest ih => exact hbody s a close _ hg.1 fun s => ih hg.2 s
  | act change next ih => exact ⟨hg.1,fun w => ih w (hg.2 w) s⟩

theorem keeps_each {process : α → W → Except ε β × W} (hprocess : ∀ a w, v (process a w).2 = v w)
    {g : Gen W ε α} (hg : g.Keeps v) : (each process g).Keeps v := by
  apply keeps_loop _ _ _ hg
  · exact fun _ => trivial
  · exact fun _ _ => trivial
  · intro _ a close next hclose hnext
    exact keeps_perform (hprocess a) (fun _ => ⟨hclose,hnext ()⟩) fun _ => trivial

theorem keeps_eachOf {process : α → W → Except ε β × W}
    (hprocess : ∀ a w, v (process a w).2 = v w) {close : W → W} (hclose : ∀ w, v (close w) = v w)
    (items : List α) {rest : Gen W ε β} (hrest : rest.Keeps v) :
    (eachOf process close items rest).Keeps v := by
  induction items with
  | nil => exact hrest
  | cons a items ih =>
    exact keeps_perform (hprocess a) (fun _ => ⟨hclose,ih⟩) fun _ => trivial

end Views

section Pulling

@[simp] theorem consume_act (change : W → W) (next : W → Gen W ε α) (n : Nat) (close : W → W)
    (w : W) : (act change next).consume (n + 1) close w =
      (next w).consume (n + 1) close (change w) := rfl

/-- The generator and the state at its next item, its end or its error. -/
def settle : Gen W ε α → W → Gen W ε α × W
  | act change next, w => settle (next w) (change w)
  | g, w => (g,w)

theorem consume_settle (g : Gen W ε α) (n : Nat) (close : W → W) (w : W) :
    g.consume (n + 1) close w = (g.settle w).1.consume (n + 1) close (g.settle w).2 := by
  induction g generalizing w with
  | done => rfl
  | raise e => rfl
  | yield a own rest ih => rfl
  | act change next ih => exact ih w (change w)

theorem consume_of_settle_eq {g h : Gen W ε α} {w w' : W} (heq : g.settle w = h.settle w')
    (n : Nat) (close : W → W) : g.consume (n + 1) close w = h.consume (n + 1) close w' := by
  rw [consume_settle g, consume_settle h, heq]

theorem settle_loop (l : Loop W ε α β σ) (g : Gen W ε α) (s : σ) (w : W) :
    (loop l g s).settle w = (loop l (g.settle w).1 s).settle (g.settle w).2 := by
  induction g generalizing w with
  | done => rfl
  | raise e => rfl
  | yield a own rest ih => rfl
  | act change next ih => exact ih w (change w)

theorem settle_chain (close : W → W) (raised : ε → Gen W ε α) (g rest : Gen W ε α) (w : W) :
    (chain close raised g rest).settle w =
      (chain close raised (g.settle w).1 rest).settle (g.settle w).2 := by
  induction g generalizing w with
  | done => rfl
  | raise e => rfl
  | yield a own g ih => rfl
  | act change next ih => exact ih w (change w)

theorem settle_loop_congr {g h : Gen W ε α} {w w' : W} (heq : g.settle w = h.settle w')
    (l : Loop W ε α β σ) (s : σ) : (loop l g s).settle w = (loop l h s).settle w' := by
  rw [settle_loop l g, settle_loop l h, heq]

theorem settle_chain_congr {g h : Gen W ε α} {w w' : W} (heq : g.settle w = h.settle w')
    (close : W → W) (raised : ε → Gen W ε α) (rest : Gen W ε α) :
    (chain close raised g rest).settle w = (chain close raised h rest).settle w' := by
  rw [settle_chain _ _ g, settle_chain _ _ h, heq]

/-- A loop that only gathers runs its source to the end before it hands out anything. -/
theorem settle_gather {l : Loop W ε α β σ} {f : σ → α → σ}
    (hbody : ∀ s a close next, l.body s a close next = next (f s a)) (g : Gen W ε α) (s : σ)
    (w : W) : (loop l g s).settle w = (match (g.drain w).1.2 with
      | none => l.ended ((g.drain w).1.1.foldl f s)
      | some e => l.raised ((g.drain w).1.1.foldl f s) e).settle (g.drain w).2 := by
  induction g generalizing s w with
  | done => rfl
  | raise e => rfl
  | yield a own rest ih =>
    rw [loop, hbody, ih]
    rfl
  | act change next ih => exact ih w s (change w)

end Pulling

end Gen
end NexusEtl.Library
