import WarpApi.Defs

/-!
The server settings and their validation (Settings.h, Settings.cpp). Sizes are
the 64-bit `size_t` of the sources.
-/
namespace WarpApi

structure SettingsData where
  port : UInt16
  ip : Bytes
  maxThreads : UInt32
  backlogSize : UInt64
  connectionTimeoutMs : UInt64
  maxBodySize : UInt64
  maxRequestSize : UInt64
  maxResponseSize : UInt64
  deriving DecidableEq

def SettingsData.isValid (d : SettingsData) : Bool :=
  if d.port < 1 || 65535 < d.port.toNat then false
  else if d.ip.isEmpty then false
  else if d.maxThreads = 0 then false
  else if d.backlogSize = 0 then false
  else true

/-- The values of config.json. -/
def configJson : SettingsData where
  port := 41385
  ip := ascii "0.0.0.0"
  maxThreads := 12
  backlogSize := 8192
  connectionTimeoutMs := 60000
  maxBodySize := 16384
  maxRequestSize := 16384
  maxResponseSize := 16384

example : configJson.isValid = true := by decide

end WarpApi
