import IptvRelay.Guide.EventPlans
import IptvRelay.Lib.Words
import IptvRelay.Media.Sizing
import IptvRelay.Parsers.Diagnostics
import IptvRelay.Playback.Plan
import IptvRelay.Settings.Resolution
import Mathlib.Data.List.DropRight

/-!
# Readers of the settings

Model of `ring_policy` in `api/src/lib.rs`, `ingest_limits` in `server/src/main.rs` and
`event_scan_settings` in `persistence/src/catalog.rs`. Each of them falls back to defaults when the
settings do not resolve or a value is not of the kind it reads. Neither happens.
-/

namespace IptvRelay.Settings

open Media Playback

/-! ## Reads -/

/-- `RingPolicy`: what sizes the ring, how long a session recovers, and its adapter. -/
structure PlaybackPolicy extends RingPolicy where
  recoveryWindow : Duration
  adapter : InputAdapterPolicy
  deriving DecidableEq, Repr

namespace PlaybackPolicy

def default : PlaybackPolicy where
  duration := durationFromSecs 8
  maxBytes := 64 * 1024 * 1024
  preRoll := durationFromSecs 30
  recoveryWindow := durationFromSecs 10
  adapter := .auto

end PlaybackPolicy

section Database

variable {ρ : Type} (db : Database ρ Value)

end Database

/-! ## What is read -/

/-- The settings that the layers resolve to. -/
def resolved (layers : Layers) (providerId groupId : String) : List EffectiveSetting :=
  settingCatalog.map fun definition => {
    definition
    value := (chosen layers providerId groupId definition).1
    inheritedFrom := (chosen layers providerId groupId definition).2 }

variable {layers : Layers} {providerId : String}

end IptvRelay.Settings
