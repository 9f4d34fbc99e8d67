import Backwash.EasyFlash.Dictionary
import Backwash.Settings.Encoding

/-! The dictionary of the firmware.

The defaults of ef_sfud_port.c, told apart by their checksums. -/
namespace Backwash.EasyFlash
open Storage

/-! ### The defaults -/

/-- The bytes of a C string, without the zero behind them. -/
def toBytes (cs : List Char) : List Byte := cs.map fun c => BitVec.ofNat 8 c.toNat

/-- `default_env_set`. -/
def defaultDict : Dict where
  entries := Settings.Keys.defaultEnvSet.map fun e => ⟨toBytes e.1.toList, toBytes e.2.toList⟩
  nodupKeys := by
    show (List.keys _).Nodup
    decide +kernel

/-- The names of the defaults. -/
def defaultNames : Set (List Byte) := {k | k ∈ defaultDict}

theorem nameCrc_default : defaultDict.keys.map (fun k => (nameCrc k).toNat) =
    [33411, 24554, 36542, 47082, 63884, 21616, 26052, 19900, 4000, 15216, 11685, 64763, 7701, 31118, 12593, 37915, 34277,
      3744, 12635] := by decide +kernel

theorem names_default : Names defaultNames where
  inj k hk k' hk' h := by
    have hnodup : (defaultDict.keys.map fun k => (nameCrc k).toNat).Nodup := by
      rw [nameCrc_default]
      decide
    exact List.inj_on_of_nodup_map hnodup hk hk' (congrArg BitVec.toNat h)
  str k hk b hb := by
    have hall : (defaultDict.keys.all fun k => k.all fun b => b != 0) = true := by decide +kernel
    exact bne_iff_ne.mp (List.all_eq_true.mp (List.all_eq_true.mp hall k hk) b hb)
  length := show ∀ k ∈ defaultDict.keys, k.length ≤ efEnvNameMax by decide +kernel

/-- A chip as it is delivered. -/
def erased : Flash := ⟨fun _ => 0xFF⟩

theorem noHeader_erased (h : Bool) : NoHeader erased (base h) := by
  cases h
  · exact show le32 _ 4 ≠ sectorMagicWord by decide
  · exact show le32 _ 4 ≠ sectorMagicWord by decide

theorem size_default : defaultDict.size ≤ 3928 := by decide +kernel

/-- The number of boots is read, deleted and set again, with a restart between. -/
def someCalls : List Call :=
  let key := toBytes "boot_times".toList
  [.get key, .del key, .restart, .setBlob key (some [0x31])]

theorem admits_someCalls : (Dict.machine defaultNames).Admits defaultDict someCalls := by
  have hmem : toBytes "boot_times".toList ∈ defaultDict := by decide +kernel
  refine ⟨hmem, hmem, trivial, ⟨hmem, ?_⟩, trivial⟩
  show Dict.size (defaultDict.erase _) + _ ≤ 3928
  decide +kernel

/-- The defaults of the firmware, on a chip as it is delivered. -/
theorem env_answers_as_dict_erased :
    ∃ s', (session defaultDict someCalls).run (Store.reset erased) =
        some ((.noErr, (Dict.machine defaultNames).answers defaultDict someCalls), s') ∧
      Stores defaultNames ((Dict.machine defaultNames).after defaultDict someCalls) s' :=
  env_answers_as_dict noHeader_erased (by decide) names_default (fun _ hk => hk) size_default someCalls admits_someCalls

theorem one_sector_spare_erased :
    ∃ r s', (session defaultDict someCalls).run (Store.reset erased) = some (r, s') ∧ ∃ h, Formatted s'.flash (base h) :=
  one_sector_spare noHeader_erased (by decide) names_default (fun _ hk => hk) size_default someCalls admits_someCalls

theorem cached_search_agrees_erased :
    ∃ r s, (session defaultDict someCalls).run (Store.reset erased) = some (r, s) ∧ ∀ key ∈ defaultNames, ∀ env,
      ∃ found e₁ e₂ s', (findEnv key env).run s = some ((found, e₁), s') ∧
        (findEnvNoCache key env).run s = some ((found, e₂), s) ∧ (found = true → e₁ = e₂) :=
  cached_search_agrees noHeader_erased (by decide) names_default (fun _ hk => hk) size_default someCalls admits_someCalls

end Backwash.EasyFlash
