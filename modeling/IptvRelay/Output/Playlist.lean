import IptvRelay.Output.Guide

/-!
# The published playlist

Model of `playlist` in `api/src/lib.rs`, for a token that the handler has accepted: the body of
the response.
-/

namespace IptvRelay.Output

/-- What the playlist says about a channel. -/
structure OutputChannel where
  id : Uuid
  name : String
  logo : String
  number : String
  group : String

def ChannelRow.output (channel : ChannelRow) : OutputChannel :=
  { id := channel.id, name := channel.name, logo := channel.logoUrl.getD ""
    number := channel.channelNumber, group := channel.groupName }

def ChannelRecord.output (channel : ChannelRecord) : OutputChannel :=
  { id := channel.id, name := channel.name, logo := channel.logoUrl.getD ""
    number := channel.number, group := channel.group.getD "Uncategorized" }

/-- The catalog that the state of the server has. -/
inductive PlaylistSource where
  | database (channels : List ChannelRow)
  | memory (catalog : CatalogSnapshot)

/-- The channels that are written, in their order. -/
def PlaylistSource.outputs : PlaylistSource → List OutputChannel
  | .database channels => channels.map ChannelRow.output
  | .memory catalog => (catalog.channels.filter ChannelRecord.enabled).map ChannelRecord.output

section Write

variable (publicBaseUrl token : String)

def guideUrl : List Char :=
  publicBaseUrl.toList ++ "/out/".toList ++ token.toList ++ "/xmltv.xml".toList

def streamUrl (id : Uuid) : List Char :=
  publicBaseUrl.toList ++ "/out/".toList ++ token.toList ++ "/stream/".toList ++ uuidText id ++
    ".ts".toList

def playlistHeader : List Char :=
  "#EXTM3U x-tvg-url=\"".toList ++ guideUrl publicBaseUrl token ++ "\"\n".toList

/-- The two lines of a channel, in both branches of the handler. -/
def writeEntry (channel : OutputChannel) : List Char :=
  "#EXTINF:-1 tvg-id=\"".toList ++ uuidText channel.id ++
    "\" tvg-name=\"".toList ++ m3uEscape channel.name.toList ++
    "\" tvg-logo=\"".toList ++ m3uEscape channel.logo.toList ++
    "\" tvg-chno=\"".toList ++ m3uEscape channel.number.toList ++
    "\" group-title=\"".toList ++ m3uEscape channel.group.toList ++
    "\",".toList ++ replaceLineBreaks channel.name.toList ++
    "\n".toList ++ streamUrl publicBaseUrl token channel.id ++ "\n".toList

/-- `playlist`. -/
def playlist (source : PlaylistSource) : List Char :=
  playlistHeader publicBaseUrl token ++ source.outputs.flatMap (writeEntry publicBaseUrl token)

end Write

end IptvRelay.Output
