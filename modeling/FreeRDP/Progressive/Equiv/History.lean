import FreeRDP.Progressive.Equiv.Copies
import FreeRDP.Progressive.Equiv.Upgrade

/-!
# The history of the tiles of a surface

Whatever messages a surface decodes, its tiles come about by the actions of `Acts`: a tile block
replaces a tile, and a work item decodes one in a region whose tables have been accepted.  So what holds
in every run of the actions holds of every tile that a work item decodes.
-/

namespace FreeRDP.Progressive

open Triples

variable (env : Env) (dwt2dDecode : List ℤ → Bool → Bool → Bool × List ℤ)

/-- A tile that actions have made of a fresh one. -/
def Tile.Reached (tile : Tile) : Prop :=
  ∃ data current sign actions, Runs (Acts env dwt2dDecode) (Tile.fresh data current sign) actions tile

/-- All tiles of the surface have been reached. -/
def Histories (st : State) : Prop := ∀ z, (st.surface.tiles z).Reached env dwt2dDecode

variable {env dwt2dDecode}

theorem Tile.Reached.act {tile next : Tile} {action : Action} (h : tile.Reached env dwt2dDecode)
    (hacts : Acts env dwt2dDecode tile action next) : next.Reached env dwt2dDecode := by
  obtain ⟨data, current, sign, actions, hrun⟩ := h
  exact ⟨data, current, sign, actions ++ [action], hrun.snoc hacts⟩

theorem Histories.update {st : State} (h : Histories env dwt2dDecode st) {z : ℕ} (action : Action)
    {next : Tile} (hacts : Acts env dwt2dDecode (st.surface.tiles z) action next) :
    Histories env dwt2dDecode (st.withTile z next) := by
  intro w
  show (Function.update st.surface.tiles z next w).Reached env dwt2dDecode
  by_cases hwz : w = z
  · rw [hwz, Function.update_self]
    exact (h z).act hacts
  · rw [Function.update_of_ne hwz]
    exact h w

/-! ### Tile blocks -/

end FreeRDP.Progressive
