import MessageCenter.Lib.Ledger

/-!
# Carriers and their cargo

Carriers circulate.  An actor takes a blank carrier from the pool or makes a new one and
gets it ready: as it is, or marked and then loaded with a new piece of cargo.  It puts
the carrier in the queue, or unloads it, which destroys the cargo, and stores the
carrier in the pool or scraps it.  An actor that takes a carrier from the queue unloads it too.

The invariant says where each carrier and each piece of cargo is: a carrier that exists
is in exactly one place, cargo that exists is on exactly one carrier, which is ready, and
cargo that ceased to exist was destroyed once.
-/

namespace Circulation

open Accounting

universe u

/-- What an actor has in hand. -/
inductive Hand where
  | empty
  | blank (carrier : Nat)
  | ready (carrier : Nat)
deriving DecidableEq, Repr

def Hand.carriers : Hand → List Nat
  | .empty => []
  | .blank carrier | .ready carrier => [carrier]

/-- Carriers below `made` and cargo below `loaded` have been made. -/
@[ext]
structure Depot (Actor : Type u) where
  hand : Actor → Hand
  pool : List Nat
  queue : List Nat
  made : Nat
  scrapped : List Nat
  marked : Nat → Bool
  cargo : Nat → Option Nat
  live : Nat → Bool
  loaded : Nat
  destroyed : List Nat

variable {Actor : Type u}

/-- The carrier is in the queue or ready in somebody's hand. -/
def Depot.Ready (d : Depot Actor) (carrier : Nat) : Prop :=
  carrier ∈ d.queue ∨ ∃ actor, d.hand actor = .ready carrier

/-- The same for an actor and the others. -/
theorem Depot.ready_iff (d : Depot Actor) (actor : Actor) (carrier : Nat) :
    d.Ready carrier ↔ carrier ∈ d.queue ∨ d.hand actor = .ready carrier ∨
      ∃ other, other ≠ actor ∧ d.hand other = .ready carrier := by
  constructor
  · rintro (hqueue | ⟨other, hready⟩)
    · exact Or.inl hqueue
    · by_cases heq : other = actor
      · exact Or.inr (Or.inl (heq ▸ hready))
      · exact Or.inr (Or.inr ⟨other, heq, hready⟩)
  · rintro (hqueue | hready | ⟨other, _, hready⟩)
    · exact Or.inl hqueue
    · exact Or.inr ⟨actor, hready⟩
    · exact Or.inr ⟨other, hready⟩

inductive Place (Actor : Type u) where
  | pool
  | queue
  | hand (actor : Actor)
deriving DecidableEq

def tokens (ids : List Nat) : List (Nat × Unit) := ids.map fun id => (id, ())

def Depot.places (d : Depot Actor) : Place Actor → List (Nat × Unit)
  | .pool => tokens d.pool
  | .queue => tokens d.queue
  | .hand actor => tokens (d.hand actor).carriers

def Depot.onCarrier (d : Depot Actor) (carrier : Nat) : List (Nat × Unit) :=
  tokens (d.cargo carrier).toList

def Depot.carrierCount (d : Depot Actor) (carrier : Nat) : Option Unit :=
  if carrier < d.made ∧ carrier ∉ d.scrapped then some () else none

def Depot.cargoCount (d : Depot Actor) (id : Nat) : Option Unit :=
  if d.live id then some () else none

structure Depot.Inv (d : Depot Actor) : Prop where
  carriers : Ledger d.places d.carrierCount
  cargo : Ledger d.onCarrier d.cargoCount
  filled : ∀ carrier, d.cargo carrier ≠ none → d.Ready carrier
  marks : ∀ carrier, d.Ready carrier → (d.marked carrier = true ↔ d.cargo carrier ≠ none)
  old : ∀ id, d.live id = true → id < d.loaded
  once : d.destroyed.Nodup
  gone : ∀ id, id ∈ d.destroyed ↔ id < d.loaded ∧ d.live id = false
  scrapped : ∀ carrier ∈ d.scrapped, carrier < d.made

variable {d next : Depot Actor} {actor : Actor} {carrier : Nat}

theorem mem_tokens {id : Nat} {ids : List Nat} : id ∈ (tokens ids).map Prod.fst ↔ id ∈ ids := by
  simp [tokens]

theorem Depot.Inv.exists_of_place (hinv : d.Inv) {p : Place Actor}
    (hmem : carrier ∈ (d.places p).map Prod.fst) :
    carrier < d.made ∧ carrier ∉ d.scrapped := by
  have hcount := hinv.carriers.counted hmem
  by_contra hnot
  exact hcount (if_neg hnot)

/-- What an actor has in hand is nowhere else. -/
theorem Depot.Inv.alone (hinv : d.Inv) (hmem : carrier ∈ (d.hand actor).carriers) :
    carrier ∉ d.pool ∧ carrier ∉ d.queue ∧
      ∀ other, other ≠ actor → carrier ∉ (d.hand other).carriers := by
  have hhere : carrier ∈ (d.places (.hand actor)).map Prod.fst := mem_tokens.mpr hmem
  refine ⟨fun hpool => ?_, fun hqueue => ?_, fun other hne hother => ?_⟩
  · cases hinv.carriers.apart _ (.pool) carrier hhere (mem_tokens.mpr hpool)
  · cases hinv.carriers.apart _ (.queue) carrier hhere (mem_tokens.mpr hqueue)
  · cases hinv.carriers.apart _ (.hand other) carrier hhere (mem_tokens.mpr hother)
    exact hne rfl

/-- What an actor has in hand is ready only if it is ready there. -/
theorem Depot.Inv.ready_iff_hand (hinv : d.Inv) (hmem : carrier ∈ (d.hand actor).carriers) :
    d.Ready carrier ↔ d.hand actor = .ready carrier := by
  obtain ⟨_, hqueue, hothers⟩ := hinv.alone hmem
  rw [d.ready_iff actor]
  constructor
  · rintro (hmem' | hready | ⟨other, hne, hready⟩)
    · exact absurd hmem' hqueue
    · exact hready
    · exact absurd (by simp [hready, Hand.carriers]) (hothers other hne)
  · exact fun hready => Or.inr (Or.inl hready)

theorem Depot.Inv.not_ready_of_blank (hinv : d.Inv) (hblank : d.hand actor = .blank carrier) :
    ¬d.Ready carrier := by
  intro hready
  have hmem : carrier ∈ (d.hand actor).carriers := by simp [hblank, Hand.carriers]
  have hhand := (hinv.ready_iff_hand hmem).mp hready
  rw [hblank] at hhand
  cases hhand

theorem Depot.Inv.made_of_ready (hinv : d.Inv) (hready : d.Ready carrier) : carrier < d.made := by
  rcases hready with hqueue | ⟨other, hready⟩
  · exact (hinv.exists_of_place (p := .queue) (mem_tokens.mpr hqueue)).1
  · have hmem : carrier ∈ (d.hand other).carriers := by simp [hready, Hand.carriers]
    exact (hinv.exists_of_place (p := .hand other) (mem_tokens.mpr hmem)).1

/-- A carrier that is blank in somebody's hand has no cargo. -/
theorem Depot.Inv.cargo_of_blank (hinv : d.Inv) (hblank : d.hand actor = .blank carrier) :
    d.cargo carrier = none := by
  by_contra hcargo
  exact hinv.not_ready_of_blank hblank (hinv.filled carrier hcargo)

theorem Depot.Inv.cargo_of_unmade (hinv : d.Inv) (hunmade : d.made ≤ carrier) :
    d.cargo carrier = none := by
  by_contra hcargo
  exact Nat.lt_irrefl _ (Nat.lt_of_lt_of_le (hinv.made_of_ready (hinv.filled carrier hcargo)) hunmade)

theorem Depot.Inv.cargo_of_pool (hinv : d.Inv) (hpool : carrier ∈ d.pool) :
    d.cargo carrier = none := by
  by_contra hcargo
  have hhere : carrier ∈ (d.places .pool).map Prod.fst := mem_tokens.mpr hpool
  rcases hinv.filled carrier hcargo with hqueue | ⟨other, hready⟩
  · cases hinv.carriers.apart _ .queue carrier hhere (mem_tokens.mpr hqueue)
  · have hmem : carrier ∈ (d.hand other).carriers := by simp [hready, Hand.carriers]
    cases hinv.carriers.apart _ (.hand other) carrier hhere (mem_tokens.mpr hmem)

/-- Two carriers do not share cargo. -/
theorem Depot.Inv.carrier_unique (hinv : d.Inv) {other id : Nat} (hcargo : d.cargo carrier = some id)
    (hother : d.cargo other = some id) : carrier = other := by
  apply hinv.cargo.apart carrier other id
  · exact mem_tokens.mpr (by simp [hcargo])
  · exact mem_tokens.mpr (by simp [hother])

/-- The cargo that exists is the cargo on the carriers. -/
theorem Depot.Inv.live_iff (hinv : d.Inv) {id : Nat} :
    d.live id = true ↔ ∃ carrier, d.cargo carrier = some id := by
  constructor
  · intro hlive
    obtain ⟨carrier, hmem⟩ := hinv.cargo.owned id () (if_pos hlive)
    have hid : id ∈ (d.cargo carrier).toList := mem_tokens.mp (List.mem_map_of_mem hmem)
    exact ⟨carrier, by simpa using hid⟩
  · rintro ⟨carrier, hcargo⟩
    have hmem : id ∈ (d.onCarrier carrier).map Prod.fst := mem_tokens.mpr (by simp [hcargo])
    have hcount := hinv.cargo.counted hmem
    by_contra hnot
    exact hcount (if_neg hnot)

/-- A depot with nothing but a stock of blank carriers. -/
theorem Depot.inv_stocked (hmade : d.pool.Perm (List.range d.made)) (hqueue : d.queue = [])
    (hhand : ∀ actor, d.hand actor = .empty) (hscrapped : d.scrapped = [])
    (hcargo : ∀ carrier, d.cargo carrier = none) (hlive : ∀ id, d.live id = false)
    (hloaded : d.loaded = 0) (hdestroyed : d.destroyed = []) : d.Inv where
  carriers := by
    have htokens : ∀ carrier count, (carrier, count) ∈ d.places .pool ↔
        d.carrierCount carrier = some count := by
      intro carrier count
      simp [Depot.places, tokens, Depot.carrierCount, hscrapped, hmade.mem_iff]
    have honce : ((d.places .pool).map Prod.fst).Nodup := by
      simpa [Depot.places, tokens, Function.comp_def] using hmade.nodup_iff.mpr List.nodup_range
    refine Ledger.of_holder (fun other hne => ?_) htokens honce
    cases other with
    | pool => exact absurd rfl hne
    | queue => simp [Depot.places, hqueue, tokens]
    | hand actor => simp [Depot.places, hhand, Hand.carriers, tokens]
  cargo := by
    have hnone : d.onCarrier = fun _ => [] :=
      funext fun carrier => by simp [Depot.onCarrier, hcargo, tokens]
    have hcount : d.cargoCount = fun _ => none :=
      funext fun id => by simp [Depot.cargoCount, hlive]
    rw [hnone, hcount]
    exact Ledger.empty
  filled carrier hnot := absurd (hcargo carrier) hnot
  marks := by
    intro carrier hready
    rcases hready with hmem | ⟨actor, hready⟩
    · simp [hqueue] at hmem
    · simp [hhand] at hready
  old id hid := by simp [hlive] at hid
  once := by simp [hdestroyed]
  gone id := by simp [hdestroyed, hloaded]
  scrapped := by simp [hscrapped]

/-! ### Moves -/

section Moves

variable [DecidableEq Actor]

def Depot.give (d : Depot Actor) (actor : Actor) (hand : Hand) : Depot Actor :=
  { d with hand := Function.update d.hand actor hand }

section
variable (d : Depot Actor) (actor : Actor) (hand : Hand)

@[simp] theorem Depot.give_hand :
    (d.give actor hand).hand = Function.update d.hand actor hand := rfl
@[simp] theorem Depot.give_pool : (d.give actor hand).pool = d.pool := rfl
@[simp] theorem Depot.give_queue : (d.give actor hand).queue = d.queue := rfl
@[simp] theorem Depot.give_made : (d.give actor hand).made = d.made := rfl
@[simp] theorem Depot.give_scrapped : (d.give actor hand).scrapped = d.scrapped := rfl
@[simp] theorem Depot.give_marked : (d.give actor hand).marked = d.marked := rfl
@[simp] theorem Depot.give_cargo : (d.give actor hand).cargo = d.cargo := rfl

end

/-- `actor` makes a move. -/
inductive Move (actor : Actor) (d : Depot Actor) : Depot Actor → Prop
  | take {carrier : Nat} {rest : List Nat} (hhand : d.hand actor = .empty)
      (hpool : d.pool = carrier :: rest) :
      Move actor d { d.give actor (.blank carrier) with pool := rest }
  | make (hhand : d.hand actor = .empty) :
      Move actor d
        { d.give actor (.blank d.made) with
          made := d.made + 1
          marked := Function.update d.marked d.made false
          cargo := Function.update d.cargo d.made none }
  | mark {carrier : Nat} (hhand : d.hand actor = .blank carrier) :
      Move actor d { d with marked := Function.update d.marked carrier true }
  | getReady {carrier : Nat} (hhand : d.hand actor = .blank carrier) :
      Move actor d
        { d.give actor (.ready carrier) with
          marked := Function.update d.marked carrier false }
  | load {carrier : Nat} (hhand : d.hand actor = .blank carrier)
      (hmark : d.marked carrier = true) :
      Move actor d
        { d.give actor (.ready carrier) with
          cargo := Function.update d.cargo carrier (some d.loaded)
          live := Function.update d.live d.loaded true
          loaded := d.loaded + 1 }
  | enqueue {carrier : Nat} (hhand : d.hand actor = .ready carrier) :
      Move actor d { d.give actor .empty with queue := d.queue ++ [carrier] }
  | dequeue {carrier : Nat} {rest : List Nat} (hhand : d.hand actor = .empty)
      (hqueue : d.queue = carrier :: rest) :
      Move actor d { d.give actor (.ready carrier) with queue := rest }
  | unloadNothing {carrier : Nat} (hhand : d.hand actor = .ready carrier)
      (hcargo : d.cargo carrier = none) :
      Move actor d
        { d.give actor (.blank carrier) with
          marked := Function.update d.marked carrier false
          cargo := Function.update d.cargo carrier none }
  | unload {carrier id : Nat} (hhand : d.hand actor = .ready carrier)
      (hcargo : d.cargo carrier = some id) :
      Move actor d
        { d.give actor (.blank carrier) with
          marked := Function.update d.marked carrier false
          cargo := Function.update d.cargo carrier none
          live := Function.update d.live id false
          destroyed := id :: d.destroyed }
  | store {carrier : Nat} (hhand : d.hand actor = .blank carrier) :
      Move actor d { d.give actor .empty with pool := carrier :: d.pool }
  | scrap {carrier : Nat} (hhand : d.hand actor = .blank carrier) :
      Move actor d { d.give actor .empty with scrapped := carrier :: d.scrapped }

/-! ### Where everything is after a move -/

/-- A permutation of holdings, place by place. -/
theorem perm_of_places {holdings holdings' : Place Actor → List (Nat × Unit)} (actor : Actor)
    (hpool : (holdings .pool).Perm (holdings' .pool))
    (hqueue : (holdings .queue).Perm (holdings' .queue))
    (hself : (holdings (.hand actor)).Perm (holdings' (.hand actor)))
    (hothers : ∀ other, other ≠ actor →
      (holdings (.hand other)).Perm (holdings' (.hand other))) :
    ∀ place, (holdings place).Perm (holdings' place)
  | .pool => hpool
  | .queue => hqueue
  | .hand other => by
      by_cases heq : other = actor
      · exact heq ▸ hself
      · exact hothers other heq

/-- A carrier moves between two places. -/
theorem Move.carriers (hmove : Move actor d next) (hinv : d.Inv) :
    Ledger next.places next.carrierCount := by
  have hpoolHand : (Place.pool : Place Actor) ≠ .hand actor := nofun
  have hqueueHand : (Place.queue : Place Actor) ≠ .hand actor := nofun
  have hgive : ∀ carrier, (d.hand actor).carriers = [carrier] →
      (d.places (.hand actor)).Perm ([(carrier, ())] ++ []) := by
    intro carrier hcarriers
    simp [Depot.places, hcarriers, tokens]
  cases hmove with
  | @take carrier rest hempty hpool =>
      have htaken : (d.places .pool).Perm ([(carrier, ())] ++ tokens rest) := by
        simp [Depot.places, hpool, tokens]
      refine (hinv.carriers.transfer hpoolHand htaken).perm (perm_of_places actor ?_ ?_ ?_ ?_)
      · simp [Depot.places]
      · simp [Depot.places]
      · simp [Depot.places, hempty, Hand.carriers, tokens]
      · intro other hne
        simp [Depot.places, hne]
  | make hempty =>
      have hbefore : (d.places (.hand actor)).Perm [] := by
        simp [Depot.places, hempty, Hand.carriers, tokens]
      have hnew : d.carrierCount d.made = none := if_neg fun hmade => Nat.lt_irrefl _ hmade.1
      have hself : (if d.made < d.made + 1 ∧ d.made ∉ d.scrapped then some () else none) =
          some () :=
        if_pos ⟨Nat.lt_succ_self _, fun hmem => Nat.lt_irrefl _ (hinv.scrapped _ hmem)⟩
      refine (hinv.carriers.create hbefore hnew hself ?_).perm (perm_of_places actor ?_ ?_ ?_ ?_)
      · intro other hne
        have hlt : other < d.made + 1 ↔ other < d.made := by omega
        simp only [Depot.carrierCount, Depot.give_scrapped, hlt]
      · simp [Depot.places]
      · simp [Depot.places]
      · simp [Depot.places, Hand.carriers, tokens]
      · intro other hne
        simp [Depot.places, hne]
  | mark => exact hinv.carriers
  | @getReady carrier hblank | @load carrier hblank _ =>
      refine hinv.carriers.perm (perm_of_places actor .rfl .rfl ?_ ?_)
      · simp [Depot.places, hblank, Hand.carriers]
      · intro other hne
        simp [Depot.places, hne]
  | @unload carrier _ hready _ | @unloadNothing carrier hready _ =>
      refine hinv.carriers.perm (perm_of_places actor .rfl .rfl ?_ ?_)
      · simp [Depot.places, hready, Hand.carriers]
      · intro other hne
        simp [Depot.places, hne]
  | @enqueue carrier hready =>
      have hgiven := hgive carrier (by rw [hready]; rfl)
      refine (hinv.carriers.transfer hqueueHand.symm hgiven).perm
        (perm_of_places actor ?_ ?_ ?_ ?_)
      · simp [Depot.places]
      · simp [Depot.places, tokens]
      · simp [Depot.places, Hand.carriers, tokens]
      · intro other hne
        simp [Depot.places, hne]
  | @dequeue carrier rest hempty hqueue =>
      have htaken : (d.places .queue).Perm ([(carrier, ())] ++ tokens rest) := by
        simp [Depot.places, hqueue, tokens]
      refine (hinv.carriers.transfer hqueueHand htaken).perm (perm_of_places actor ?_ ?_ ?_ ?_)
      · simp [Depot.places]
      · simp [Depot.places]
      · simp [Depot.places, hempty, Hand.carriers, tokens]
      · intro other hne
        simp [Depot.places, hne]
  | @store carrier hblank =>
      have hgiven := hgive carrier (by rw [hblank]; rfl)
      refine (hinv.carriers.transfer hpoolHand.symm hgiven).perm
        (perm_of_places actor ?_ ?_ ?_ ?_)
      · simp [Depot.places, tokens]
      · simp [Depot.places]
      · simp [Depot.places, Hand.carriers, tokens]
      · intro other hne
        simp [Depot.places, hne]
  | @scrap carrier hblank =>
      have hgiven := hgive carrier (by rw [hblank]; rfl)
      have hself : (if carrier < d.made ∧ carrier ∉ carrier :: d.scrapped then some () else none) =
          none := if_neg fun hmade => hmade.2 List.mem_cons_self
      refine (hinv.carriers.close hgiven hself ?_).perm (perm_of_places actor ?_ ?_ ?_ ?_)
      · intro other hne
        simp [Depot.carrierCount, hne]
      · simp [Depot.places]
      · simp [Depot.places]
      · simp [Depot.places, Hand.carriers, tokens]
      · intro other hne
        simp [Depot.places, hne]

/-- Cargo is made on a carrier or destroyed on one. -/
theorem Move.onCarrier (hmove : Move actor d next) (hinv : d.Inv) :
    Ledger next.onCarrier next.cargoCount := by
  cases hmove with
  | make =>
      refine hinv.cargo.perm fun carrier => ?_
      by_cases heq : carrier = d.made
      · simp [Depot.onCarrier, heq, hinv.cargo_of_unmade (Nat.le_refl _)]
      · simp [Depot.onCarrier, heq]
  | @load carrier hblank _ =>
      have hbefore : (d.onCarrier carrier).Perm [] := by
        simp [Depot.onCarrier, hinv.cargo_of_blank hblank, tokens]
      have hnew : d.cargoCount d.loaded = none :=
        if_neg fun hlive => Nat.lt_irrefl _ (hinv.old _ hlive)
      have hself : (if Function.update d.live d.loaded true d.loaded then some () else none) =
          some () := by simp
      refine (hinv.cargo.create hbefore hnew hself ?_).perm fun other => ?_
      · intro other hne
        simp [Depot.cargoCount, hne]
      · by_cases heq : other = carrier
        · simp [Depot.onCarrier, heq, tokens]
        · simp [Depot.onCarrier, heq]
  | @unloadNothing carrier _ hcargo =>
      refine hinv.cargo.perm fun other => ?_
      by_cases heq : other = carrier
      · simp [Depot.onCarrier, heq, hcargo]
      · simp [Depot.onCarrier, heq]
  | @unload carrier id _ hcargo =>
      have hbefore : (d.onCarrier carrier).Perm ([(id, ())] ++ []) := by
        simp [Depot.onCarrier, hcargo, tokens]
      have hself : (if Function.update d.live id false id then some () else none) = none := by
        simp
      refine (hinv.cargo.close hbefore hself ?_).perm fun other => ?_
      · intro other hne
        simp [Depot.cargoCount, hne]
      · by_cases heq : other = carrier
        · simp [Depot.onCarrier, heq, tokens]
        · simp [Depot.onCarrier, heq]
  | _ => exact hinv.cargo

/-- A carrier has cargo only if it is ready, and then if it is marked. -/
def Depot.Loading (d : Depot Actor) (carrier : Nat) : Prop :=
  (d.cargo carrier ≠ none → d.Ready carrier) ∧
    (d.Ready carrier → (d.marked carrier = true ↔ d.cargo carrier ≠ none))

omit [DecidableEq Actor] in
theorem Depot.Loading.congr (hloading : d.Loading carrier)
    (hready : next.Ready carrier ↔ d.Ready carrier) (hcargo : next.cargo carrier = d.cargo carrier)
    (hmarked : d.Ready carrier → next.marked carrier = d.marked carrier) :
    next.Loading carrier := by
  refine ⟨fun hnot => hready.mpr (hloading.1 (hcargo ▸ hnot)), fun hnow => ?_⟩
  rw [hcargo, hmarked (hready.mp hnow)]
  exact hloading.2 (hready.mp hnow)

/-- What is ready after a hand has changed. -/
theorem Depot.ready_give {hand : Hand} (hnext : next.hand = Function.update d.hand actor hand) :
    next.Ready carrier ↔ carrier ∈ next.queue ∨ hand = .ready carrier ∨
      ∃ other, other ≠ actor ∧ d.hand other = .ready carrier := by
  rw [next.ready_iff actor, hnext, Function.update_self]
  have hothers : ∀ other, (other ≠ actor ∧ Function.update d.hand actor hand other = .ready carrier) ↔
      (other ≠ actor ∧ d.hand other = .ready carrier) :=
    fun other => and_congr_right fun hne => by rw [Function.update_of_ne hne]
  rw [exists_congr hothers]

theorem Move.loading (hmove : Move actor d next) (hinv : d.Inv) (other : Nat) :
    next.Loading other := by
  have hbefore : d.Loading other := ⟨hinv.filled other, hinv.marks other⟩
  cases hmove with
  | @take carrier rest hempty _ =>
      apply hbefore.congr
      · rw [Depot.ready_give rfl, d.ready_iff actor]
        simp [hempty]
      · rfl
      · exact fun _ => rfl
  | make hempty =>
      apply hbefore.congr
      · rw [Depot.ready_give rfl, d.ready_iff actor]
        simp [hempty]
      · by_cases heq : other = d.made
        · simp [heq, hinv.cargo_of_unmade (Nat.le_refl _)]
        · simp [heq]
      · intro hready
        have hne : other ≠ d.made := Nat.ne_of_lt (hinv.made_of_ready hready)
        simp [hne]
  | @mark carrier hblank =>
      refine hbefore.congr Iff.rfl rfl fun hready => ?_
      have hne : other ≠ carrier := fun heq => hinv.not_ready_of_blank hblank (heq ▸ hready)
      simp [hne]
  | @getReady carrier hblank =>
      by_cases heq : other = carrier
      · subst heq
        have hcargo := hinv.cargo_of_blank hblank
        refine ⟨fun hnot => absurd hcargo hnot, fun _ => ?_⟩
        simp [hcargo]
      · apply hbefore.congr
        · rw [Depot.ready_give rfl, d.ready_iff actor]
          simp [hblank, Ne.symm heq]
        · rfl
        · intro _
          simp [heq]
  | @load carrier hblank hmark =>
      by_cases heq : other = carrier
      · subst heq
        refine ⟨fun _ => ?_, fun _ => ?_⟩
        · rw [Depot.ready_give rfl]
          exact Or.inr (Or.inl rfl)
        · simp [hmark]
      · apply hbefore.congr
        · rw [Depot.ready_give rfl, d.ready_iff actor]
          simp [hblank, Ne.symm heq]
        · simp [heq]
        · exact fun _ => rfl
  | @enqueue carrier hready =>
      apply hbefore.congr
      · rw [Depot.ready_give rfl, d.ready_iff actor]
        simp [hready, eq_comm, or_assoc]
      · rfl
      · exact fun _ => rfl
  | @dequeue carrier rest hempty hqueue =>
      apply hbefore.congr
      · rw [Depot.ready_give rfl, d.ready_iff actor]
        simp [hempty, hqueue, eq_comm, or_assoc, or_left_comm]
      · rfl
      · exact fun _ => rfl
  | @unloadNothing carrier hready _ | @unload carrier _ hready _ =>
      by_cases heq : other = carrier
      · subst heq
        refine ⟨fun hnot => absurd (by simp) hnot, fun _ => ?_⟩
        simp
      · apply hbefore.congr
        · rw [Depot.ready_give rfl, d.ready_iff actor]
          simp [hready, Ne.symm heq]
        · simp [heq]
        · intro _
          simp [heq]
  | @store carrier hblank | @scrap carrier hblank =>
      apply hbefore.congr
      · rw [Depot.ready_give rfl, d.ready_iff actor]
        simp [hblank]
      · rfl
      · exact fun _ => rfl

/-- **A move keeps the invariant.** -/
theorem Move.inv (hmove : Move actor d next) (hinv : d.Inv) : next.Inv := by
  have hcarriers := hmove.carriers hinv
  have hcargo := hmove.onCarrier hinv
  have hloading := hmove.loading hinv
  have hrest : (∀ id, next.live id = true → id < next.loaded) ∧ next.destroyed.Nodup ∧
      (∀ id, id ∈ next.destroyed ↔ id < next.loaded ∧ next.live id = false) ∧
      ∀ carrier ∈ next.scrapped, carrier < next.made := by
    cases hmove with
    | make => exact ⟨hinv.old, hinv.once, hinv.gone, fun carrier hmem =>
        Nat.lt_succ_of_lt (hinv.scrapped carrier hmem)⟩
    | @load carrier hblank hmark =>
        refine ⟨fun id hlive => ?_, hinv.once, fun id => ?_, hinv.scrapped⟩
        · by_cases heq : id = d.loaded
          · exact heq ▸ Nat.lt_succ_self _
          · exact Nat.lt_succ_of_lt (hinv.old id (by simpa [heq] using hlive))
        · by_cases heq : id = d.loaded
          · simp [heq, hinv.gone, Depot.give]
          · have hlt : id < d.loaded + 1 ↔ id < d.loaded := by omega
            simp [heq, hinv.gone, hlt, Depot.give]
    | @unload carrier id hready hload =>
        have hlive : d.live id = true := hinv.live_iff.mpr ⟨carrier, hload⟩
        have hnew : id ∉ d.destroyed := by simp [hinv.gone, hlive]
        refine ⟨fun other hother => ?_, List.nodup_cons.mpr ⟨hnew, hinv.once⟩, fun other => ?_,
          hinv.scrapped⟩
        · by_cases heq : other = id
          · simp [heq] at hother
          · exact hinv.old other (by simpa [heq] using hother)
        · by_cases heq : other = id
          · simpa [heq, Depot.give] using hinv.old id hlive
          · simp [heq, hinv.gone, Depot.give]
    | @scrap carrier hblank =>
        have hmem : carrier ∈ (d.hand actor).carriers := by simp [hblank, Hand.carriers]
        have hmade := hinv.exists_of_place (p := .hand actor) (mem_tokens.mpr hmem)
        refine ⟨hinv.old, hinv.once, hinv.gone, fun other hother => ?_⟩
        rcases List.mem_cons.mp hother with rfl | hother
        · exact hmade.1
        · exact hinv.scrapped other hother
    | _ => exact ⟨hinv.old, hinv.once, hinv.gone, hinv.scrapped⟩
  obtain ⟨hold, honce, hgone, hscrapped⟩ := hrest
  exact ⟨hcarriers, hcargo, fun carrier => (hloading carrier).1, fun carrier => (hloading carrier).2,
    hold, honce, hgone, hscrapped⟩

/-- A move of one actor leaves alone what the others have in hand. -/
theorem Move.others (hmove : Move actor d next) (hinv : d.Inv) {other : Actor}
    (hne : other ≠ actor) :
    next.hand other = d.hand other ∧ ∀ carrier ∈ (d.hand other).carriers,
      next.cargo carrier = d.cargo carrier ∧ next.marked carrier = d.marked carrier := by
  have hapart : ∀ {mine}, mine ∈ (d.hand actor).carriers →
      ∀ carrier ∈ (d.hand other).carriers, carrier ≠ mine := by
    intro mine hmine carrier hmem heq
    exact (hinv.alone hmine).2.2 other hne (heq ▸ hmem)
  cases hmove with
  | make =>
      refine ⟨Function.update_of_ne hne _ _, fun carrier hmem => ?_⟩
      have hmade := hinv.exists_of_place (p := .hand other) (mem_tokens.mpr hmem)
      have hnot := Nat.ne_of_lt hmade.1
      exact ⟨Function.update_of_ne hnot _ _, Function.update_of_ne hnot _ _⟩
  | @mark mine hhand =>
      refine ⟨rfl, fun carrier hmem => ⟨rfl, ?_⟩⟩
      exact Function.update_of_ne (hapart (by simp [hhand, Hand.carriers]) carrier hmem) _ _
  | @getReady mine hhand =>
      refine ⟨Function.update_of_ne hne _ _, fun carrier hmem => ⟨rfl, ?_⟩⟩
      exact Function.update_of_ne (hapart (by simp [hhand, Hand.carriers]) carrier hmem) _ _
  | @load mine hhand _ =>
      refine ⟨Function.update_of_ne hne _ _, fun carrier hmem => ⟨?_, rfl⟩⟩
      exact Function.update_of_ne (hapart (by simp [hhand, Hand.carriers]) carrier hmem) _ _
  | @unloadNothing mine hhand _ | @unload mine _ hhand _ =>
      refine ⟨Function.update_of_ne hne _ _, fun carrier hmem => ?_⟩
      have hnot : carrier ≠ mine := hapart (by simp [hhand, Hand.carriers]) carrier hmem
      exact ⟨Function.update_of_ne hnot _ _, Function.update_of_ne hnot _ _⟩
  | _ => exact ⟨Function.update_of_ne hne _ _, fun _ _ => ⟨rfl, rfl⟩⟩

end Moves

end Circulation
