/-!
# The short names of emoji

The names by which a text may ask for an emoji. The names of one emoji share an entry, and one with a tilde is
that of an emoji in five tones of skin as well. The emoji of one character stand in the order of their code
points: a row starts with that of its first entry, and each entry has the one after that before it. The emoji of
several characters follow with their code points, those of a flag as the letters of its country after an at sign.
A plus sign stands for a joiner, and a percent sign in a name for both `man` and `woman`.
-/

namespace NqcBlocks.Text

def emojiRows : String := "A9 copyright
AE registered
203C double_exclamation_mark=bangbang
2049 exclamation_question_mark=interrobang
2122 trade_mark=tm
2139 information=information_source
2194 left-right_arrow=left_right_arrow up-down_arrow=arrow_up_down up-left_arrow=arrow_upper_left
2197 up-right_arrow=arrow_upper_right down-right_arrow=arrow_lower_right down-left_arrow=arrow_lower_left
21A9 right_arrow_curving_left=leftwards_arrow_with_hook left_arrow_curving_right=arrow_right_hook
231A watch hourglass_done=hourglass
2328 keyboard
2388 helm_symbol
23CF eject_button=eject_symbol
23E9 fast-forward_button=fast_forward fast_reverse_button=rewind fast_up_button=arrow_double_up
23EC fast_down_button=arrow_double_down next_track_button=black_right__pointing_double_triangle_with_vertical_bar
23EE last_track_button=black_left__pointing_double_triangle_with_vertical_bar
23EF play_or_pause_button=black_right__pointing_triangle_with_double_vertical_bar alarm_clock stopwatch timer_clock
23F3 hourglass_not_done=hourglass_flowing_sand
23F8 pause_button=double_vertical_bar stop_button=black_square_for_stop record_button=black_circle_for_record
24C2 circled_m=m
25AA black_small_square white_small_square
25B6 play_button=arrow_forward
25C0 reverse_button=arrow_backward
25FB white_medium_square black_medium_square white_medium-small_square=white_medium_small_square
25FE black_medium-small_square=black_medium_small_square
2600 sun=sunny cloud umbrella snowman comet
260E telephone=phone
2611 ballot_box_with_check
2614 umbrella_with_rain_drops hot_beverage=coffee
2618 shamrock
261D index_pointing_up~=point_up
2620 skull_and_crossbones
2622 radioactive=radioactive_sign biohazard=biohazard_sign
2626 orthodox_cross
262A star_and_crescent
262E peace_symbol yin_yang
2638 wheel_of_dharma frowning_face=white_frowning_face smiling_face=relaxed
2640 female_sign
2642 male_sign
2648 aries taurus gemini cancer leo virgo libra scorpio=scorpius sagittarius capricorn aquarius pisces
265F chess_pawn spade_suit=spades
2663 club_suit=clubs
2665 heart_suit=hearts diamond_suit=diamonds
2668 hot_springs=hotsprings
267B recycling_symbol=recycle
267E infinity wheelchair_symbol=wheelchair
2692 hammer_and_pick anchor crossed_swords medical_symbol balance_scale=scales alembic
2699 gear
269B atom_symbol fleur-de-lis=fleur__de__lis
26A0 warning high_voltage=zap
26AA white_circle black_circle
26B0 coffin funeral_urn
26BD soccer_ball=soccer baseball
26C4 snowman_without_snow sun_behind_cloud=partly_sunny
26C8 cloud_with_lightning_and_rain=thunder_cloud_and_rain
26CE ophiuchus pick
26D1 rescue_worker’s_helmet=helmet_with_white_cross
26D3 chains no_entry
26E9 shinto_shrine church
26F0 mountain umbrella_on_ground fountain flag_in_hole=golf ferry sailboat=boat
26F7 skier ice_skate person_bouncing_ball~=person_with_ball tent
26FD fuel_pump=fuelpump
2702 scissors
2705 white_heavy_check_mark=white_check_mark
2708 airplane envelope=email raised_fist~=fist raised_hand~=hand victory_hand~=v writing_hand~
270F pencil2
2712 black_nib
2714 heavy_check_mark
2716 heavy_multiplication_x
271D latin_cross
2721 star_of_david
2728 sparkles
2733 eight-spoked_asterisk=eight_spoked_asterisk eight-pointed_star=eight_pointed_black_star
2744 snowflake
2747 sparkle
274C cross_mark=x
274E cross_mark_button=negative_squared_cross_mark
2753 question_mark=question white_question_mark=grey_question white_exclamation_mark=grey_exclamation
2757 exclamation_mark=exclamation=heavy_exclamation_mark
2763 heavy_heart_exclamation=heavy_heart_exclamation_mark_ornament red_heart=heart
2795 heavy_plus_sign heavy_minus_sign heavy_division_sign
27A1 right_arrow=arrow_right
27B0 curly_loop
27BF double_curly_loop=loop
2934 right_arrow_curving_up=arrow_heading_up right_arrow_curving_down=arrow_heading_down
2B05 left_arrow=arrow_left up_arrow=arrow_up down_arrow=arrow_down
2B1B black_large_square white_large_square
2B50 white_medium_star=star
2B55 heavy_large_circle=o
3030 wavy_dash
303D part_alternation_mark
3297 japanese_congratulations_button=congratulations
3299 japanese_secret_button=secret
1F004 mahjong_red_dragon=mahjong
1F0CF joker=black_joker
1F170 a_button_(blood_type)=a b_button_(blood_type)=b
1F17E o_button_(blood_type)=o2 p_button=parking
1F18E ab_button_(blood_type)=ab
1F191 cl_button=cl cool_button=cool free_button=free id_button=id new_button=new ng_button=ng ok_button=ok
1F198 sos_button=sos up!_button=up vs_button=vs
1F1E6 regional_indicator_symbol_letter_a=regional_indicator_a regional_indicator_symbol_letter_b=regional_indicator_b
1F1E8 regional_indicator_symbol_letter_c=regional_indicator_c regional_indicator_symbol_letter_d=regional_indicator_d
1F1EA regional_indicator_symbol_letter_e=regional_indicator_e regional_indicator_symbol_letter_f=regional_indicator_f
1F1EC regional_indicator_symbol_letter_g=regional_indicator_g regional_indicator_symbol_letter_h=regional_indicator_h
1F1EE regional_indicator_symbol_letter_i=regional_indicator_i regional_indicator_symbol_letter_j=regional_indicator_j
1F1F0 regional_indicator_symbol_letter_k=regional_indicator_k regional_indicator_symbol_letter_l=regional_indicator_l
1F1F2 regional_indicator_symbol_letter_m=regional_indicator_m regional_indicator_symbol_letter_n=regional_indicator_n
1F1F4 regional_indicator_symbol_letter_o=regional_indicator_o regional_indicator_symbol_letter_p=regional_indicator_p
1F1F6 regional_indicator_symbol_letter_q=regional_indicator_q regional_indicator_symbol_letter_r=regional_indicator_r
1F1F8 regional_indicator_symbol_letter_s=regional_indicator_s regional_indicator_symbol_letter_t=regional_indicator_t
1F1FA regional_indicator_symbol_letter_u=regional_indicator_u regional_indicator_symbol_letter_v=regional_indicator_v
1F1FC regional_indicator_symbol_letter_w=regional_indicator_w regional_indicator_symbol_letter_x=regional_indicator_x
1F1FE regional_indicator_symbol_letter_y=regional_indicator_y regional_indicator_symbol_letter_z=regional_indicator_z
1F201 japanese_here_button=koko japanese_service_charge_button=sa
1F21A japanese_free_of_charge_button=u7121
1F22F japanese_reserved_button=u6307
1F232 japanese_prohibited_button=u7981 japanese_vacancy_button=u7a7a japanese_passing_grade_button=u5408
1F235 japanese_no_vacancy_button=u6e80 japanese_not_free_of_charge_button=u6709 japanese_monthly_amount_button=u6708
1F238 japanese_application_button=u7533 japanese_discount_button=u5272 japanese_open_for_business_button=u55b6
1F250 japanese_bargain_button=ideograph_advantage japanese_acceptable_button=accept
1F300 cyclone foggy closed_umbrella night_with_stars sunrise_over_mountains sunrise cityscape_at_dusk=city_sunset
1F307 sunset=city_sunrise rainbow bridge_at_night water_wave=ocean volcano milky_way
1F30D globe_showing_europe-africa=earth_africa globe_showing_americas=earth_americas
1F30F globe_showing_asia-australia=earth_asia globe_with_meridians new_moon waxing_crescent_moon first_quarter_moon
1F314 waxing_gibbous_moon=moon full_moon waning_gibbous_moon last_quarter_moon waning_crescent_moon crescent_moon
1F31A new_moon_face=new_moon_with_face first_quarter_moon_face=first_quarter_moon_with_face
1F31C last_quarter_moon_face=last_quarter_moon_with_face full_moon_face=full_moon_with_face sun_with_face
1F31F glowing_star=star2 shooting_star=stars thermometer
1F324 sun_behind_small_cloud=white_sun_with_small_cloud sun_behind_large_cloud=white_sun_behind_cloud
1F326 sun_behind_rain_cloud=white_sun_behind_cloud_with_rain cloud_with_rain cloud_with_snow cloud_with_lightning
1F32A tornado=cloud_with_tornado fog wind_face=wind_blowing_face hot_dog taco burrito chestnut seedling evergreen_tree
1F333 deciduous_tree palm_tree cactus hot_pepper tulip cherry_blossom rose hibiscus sunflower blossom ear_of_corn=corn
1F33E sheaf_of_rice=ear_of_rice herb four_leaf_clover maple_leaf fallen_leaf leaf_fluttering_in_wind=leaves mushroom
1F345 tomato eggplant grapes melon watermelon tangerine lemon banana pineapple red_apple=apple green_apple pear peach
1F352 cherries strawberry hamburger pizza meat_on_bone poultry_leg rice_cracker rice_ball cooked_rice=rice
1F35B curry_rice=curry steaming_bowl=ramen spaghetti bread french_fries=fries roasted_sweet_potato=sweet_potato dango
1F362 oden sushi fried_shrimp fish_cake_with_swirl=fish_cake soft_ice_cream=icecream shaved_ice ice_cream doughnut
1F36A cookie chocolate_bar candy lollipop custard honey_pot shortcake=cake bento_box=bento pot_of_food=stew
1F373 cooking=egg fork_and_knife teacup_without_handle=tea sake wine_glass cocktail_glass=cocktail tropical_drink
1F37A beer_mug=beer clinking_beer_mugs=beers baby_bottle fork_and_knife_with_plate bottle_with_popping_cork popcorn
1F380 ribbon wrapped_gift=gift birthday_cake=birthday jack-o-lantern=jack_o_lantern christmas_tree santa_claus~=santa
1F386 fireworks sparkler balloon party_popper=tada confetti_ball tanabata_tree crossed_flags pine_decoration=bamboo
1F38E japanese_dolls=dolls carp_streamer=flags wind_chime moon_viewing_ceremony=rice_scene
1F392 school_backpack=school_satchel graduation_cap=mortar_board
1F396 military_medal reminder_ribbon
1F399 studio_microphone level_slider control_knobs
1F39E film_frames admission_tickets carousel_horse ferris_wheel roller_coaster fishing_pole=fishing_pole_and_fish
1F3A4 microphone movie_camera cinema headphone=headphones artist_palette=art top_hat=tophat circus_tent ticket
1F3AC clapper_board=clapper performing_arts video_game direct_hit=dart slot_machine pool_8_ball=8ball game_die bowling
1F3B4 flower_playing_cards musical_note musical_notes=notes saxophone guitar musical_keyboard trumpet violin
1F3BC musical_score running_shirt=running_shirt_with_sash tennis skis=ski basketball chequered_flag=checkered_flag
1F3C2 snowboarder~ person_running~=runner=running person_surfing~=surfer sports_medal trophy horse_racing~
1F3C8 american_football=football rugby_football person_swimming~=swimmer person_lifting_weights~=weight_lifter
1F3CC person_golfing~=golfer motorcycle=racing_motorcycle racing_car cricket_game=cricket_bat_and_ball volleyball
1F3D1 field_hockey=field_hockey_stick_and_ball ice_hockey=ice_hockey_stick_and_puck
1F3D3 ping_pong=table_tennis_paddle_and_ball snow-capped_mountain=snow_capped_mountain camping beach_with_umbrella
1F3D7 building_construction houses=house_buildings cityscape derelict_house=derelict_house_building classical_building
1F3DC desert desert_island national_park stadium house house_with_garden office_building=office
1F3E3 japanese_post_office=post_office european_post_office hospital bank atm_sign=atm hotel love_hotel
1F3EA convenience_store school department_store factory red_paper_lantern=izakaya_lantern=lantern japanese_castle
1F3F0 castle=european_castle
1F3F3 white_flag=waving_white_flag black_flag=waving_black_flag rosette
1F3F7 label badminton=badminton_racquet_and_shuttlecock bow_and_arrow amphora
1F3FB light_skin_tone=emoji_modifier_fitzpatrick_type__1__2 medium_light_skin_tone=emoji_modifier_fitzpatrick_type__3
1F3FD medium_skin_tone=emoji_modifier_fitzpatrick_type__4 medium_dark_skin_tone=emoji_modifier_fitzpatrick_type__5
1F3FF dark_skin_tone=emoji_modifier_fitzpatrick_type__6 rat mouse2 ox water_buffalo cow2 tiger2 leopard rabbit2 cat2
1F409 dragon crocodile whale2 snail snake racehorse ram goat ewe=sheep monkey rooster chicken dog2 pig2 boar elephant
1F419 octopus spiral_shell=shell bug ant honeybee=bee lady_beetle=beetle fish tropical_fish blowfish turtle
1F423 hatching_chick baby_chick front-facing_baby_chick=hatched_chick bird penguin koala poodle dromedary_camel
1F42B camel=two-hump_camel dolphin=flipper mouse=mouse_face cow=cow_face tiger=tiger_face rabbit=rabbit_face
1F431 cat=cat_face dragon_face spouting_whale=whale horse=horse_face monkey_face dog=dog_face pig=pig_face
1F438 frog_face=frog hamster_face=hamster wolf_face=wolf bear_face=bear panda_face pig_nose paw_prints=feet chipmunk
1F440 eyes eye ear~ nose~ mouth=lips tongue backhand_index_pointing_up~=point_up_2
1F447 backhand_index_pointing_down~=point_down backhand_index_pointing_left~=point_left
1F449 backhand_index_pointing_right~=point_right oncoming_fist~=facepunch=punch waving_hand~=wave ok_hand~
1F44D thumbs_up~=+1=thumbsup thumbs_down~=__1=-1=thumbsdown clapping_hands~=clap open_hands~ crown
1F452 woman’s_hat=womans_hat glasses=eyeglasses necktie t-shirt=shirt=tshirt jeans dress kimono bikini
1F45A woman’s_clothes=womans_clothes purse handbag clutch_bag=pouch man’s_shoe=mans_shoe=shoe
1F45F running_shoe=athletic_shoe high-heeled_shoe=high_heel woman’s_sandal=sandal woman’s_boot=boot footprints
1F464 bust_in_silhouette busts_in_silhouette boy~ girl~ man~ woman~ family man_and_woman_holding_hands=couple
1F46C two_men_holding_hands two_women_holding_hands police_officer~=cop people_with_bunny_ears=dancers
1F470 bride_with_veil~ blond-haired_person~=person_with_blond_hair man_with_chinese_cap~=man_with_gua_pi_mao
1F473 person_wearing_turban~=man_with_turban old_man~=older_man old_woman~=older_woman baby~ construction_worker~
1F478 princess~ ogre=japanese_ogre goblin=japanese_goblin ghost baby_angel~=angel alien alien_monster=space_invader
1F47F angry_face_with_horns=imp skull person_tipping_hand~=information_desk_person guard~=guardsman
1F483 woman_dancing~=dancer lipstick nail_polish~=nail_care person_getting_massage~=massage
1F487 person_getting_haircut~=haircut barber_pole=barber syringe pill kiss=kiss_mark love_letter ring gem_stone=gem
1F48F couplekiss bouquet couple_with_heart wedding beating_heart=heartbeat broken_heart two_hearts sparkling_heart
1F497 growing_heart=heartpulse heart_with_arrow=cupid blue_heart green_heart yellow_heart purple_heart
1F49D heart_with_ribbon=gift_heart revolving_hearts heart_decoration
1F4A0 diamond_with_a_dot=diamond_shape_with_a_dot_inside light_bulb=bulb anger_symbol=anger bomb zzz collision=boom
1F4A6 sweat_droplets=sweat_drops droplet dashing_away=dash pile_of_poo=hankey=poop=shit flexed_biceps~=muscle dizzy
1F4AC speech_balloon thought_balloon white_flower hundred_points=100 money_bag=moneybag currency_exchange
1F4B2 heavy_dollar_sign credit_card yen_banknote=yen dollar_banknote=dollar euro_banknote=euro pound_banknote=pound
1F4B8 money_with_wings chart_increasing_with_yen=chart seat laptop_computer=computer briefcase computer_disk=minidisc
1F4BE floppy_disk optical_disk=cd dvd file_folder open_file_folder page_with_curl page_facing_up date
1F4C6 calendar=tear-off_calendar card_index chart_increasing=chart_with_upwards_trend
1F4C9 chart_decreasing=chart_with_downwards_trend bar_chart clipboard pushpin round_pushpin paperclip straight_ruler
1F4D0 triangular_ruler bookmark_tabs ledger notebook notebook_with_decorative_cover closed_book open_book=book
1F4D7 green_book blue_book orange_book books name_badge scroll memo=pencil telephone_receiver pager fax_machine=fax
1F4E1 satellite=satellite_antenna loudspeaker megaphone=mega outbox_tray inbox_tray package e-mail=e__mail
1F4E8 incoming_envelope envelope_with_arrow closed_mailbox_with_lowered_flag=mailbox_closed
1F4EB closed_mailbox_with_raised_flag=mailbox open_mailbox_with_raised_flag=mailbox_with_mail
1F4ED open_mailbox_with_lowered_flag=mailbox_with_no_mail postbox postal_horn newspaper mobile_phone=iphone
1F4F2 mobile_phone_with_arrow=calling vibration_mode mobile_phone_off no_mobile_phones antenna_bars=signal_strength
1F4F7 camera camera_with_flash video_camera television=tv radio videocassette=vhs film_projector
1F4FF prayer_beads shuffle_tracks_button=twisted_rightwards_arrows repeat_button=repeat
1F502 repeat_single_button=repeat_one clockwise_vertical_arrows=arrows_clockwise
1F504 counterclockwise_arrows_button=arrows_counterclockwise dim_button=low_brightness bright_button=high_brightness
1F507 muted_speaker=mute speaker_low_volume=speaker speaker_medium_volume=sound speaker_high_volume=loud_sound battery
1F50C electric_plug magnifying_glass_tilted_left=mag magnifying_glass_tilted_right=mag_right
1F50F locked_with_pen=lock_with_ink_pen locked_with_key=closed_lock_with_key key locked=lock unlocked=unlock bell
1F515 bell_with_slash=no_bell bookmark link radio_button back_arrow=back end_arrow=end on!_arrow=on soon_arrow=soon
1F51D top_arrow=top no_one_under_eighteen=underage keycap_10=ten input_latin_uppercase=capital_abcd
1F521 input_latin_lowercase=abcd input_numbers=1234 input_symbols=symbols input_latin_letters=abc fire flashlight
1F527 wrench hammer nut_and_bolt kitchen_knife=hocho=knife pistol=gun microscope telescope crystal_ball
1F52F dotted_six-pointed_star=six_pointed_star japanese_symbol_for_beginner=beginner trident_emblem=trident
1F532 black_square_button white_square_button red_circle blue_circle=large_blue_circle large_orange_diamond
1F537 large_blue_diamond small_orange_diamond small_blue_diamond red_triangle_pointed_up=small_red_triangle
1F53B red_triangle_pointed_down=small_red_triangle_down upwards_button=arrow_up_small
1F53D downwards_button=arrow_down_small
1F549 om=om_symbol dove=dove_of_peace kaaba mosque synagogue menorah=menorah_with_nine_branches
1F550 one_o’clock=clock1 two_o’clock=clock2 three_o’clock=clock3 four_o’clock=clock4 five_o’clock=clock5
1F555 six_o’clock=clock6 seven_o’clock=clock7 eight_o’clock=clock8 nine_o’clock=clock9 ten_o’clock=clock10
1F55A eleven_o’clock=clock11 twelve_o’clock=clock12 one-thirty=clock130 two-thirty=clock230 three-thirty=clock330
1F55F four-thirty=clock430 five-thirty=clock530 six-thirty=clock630 seven-thirty=clock730 eight-thirty=clock830
1F564 nine-thirty=clock930 ten-thirty=clock1030 eleven-thirty=clock1130 twelve-thirty=clock1230
1F56F candle mantelpiece_clock
1F573 hole man_in_suit_levitating~=man_in_business_suit_levitating detective~=sleuth_or_spy dark_sunglasses spider
1F578 spider_web joystick man_dancing~
1F587 linked_paperclips
1F58A pen=lower_left_ballpoint_pen fountain_pen=lower_left_fountain_pen paintbrush=lower_left_paintbrush
1F58D crayon=lower_left_crayon
1F590 hand_with_fingers_splayed~=raised_hand_with_fingers_splayed
1F595 middle_finger~=reversed_hand_with_middle_finger_extended
1F596 vulcan_salute~=raised_hand_with_part_between_middle_and_ring_fingers
1F5A4 black_heart desktop_computer
1F5A8 printer
1F5B1 computer_mouse=three_button_mouse trackball
1F5BC framed_picture=frame_with_picture
1F5C2 card_index_dividers card_file_box file_cabinet
1F5D1 wastebasket spiral_notepad=spiral_note_pad spiral_calendar=spiral_calendar_pad
1F5DC clamp=compression old_key rolled-up_newspaper=rolled__up_newspaper
1F5E1 dagger=dagger_knife
1F5E3 speaking_head=speaking_head_in_silhouette
1F5E8 left_speech_bubble
1F5EF right_anger_bubble
1F5F3 ballot_box_with_ballot
1F5FA world_map mount_fuji tokyo_tower statue_of_liberty japan=map_of_japan moai=moyai grinning_face=grinning
1F601 beaming_face_with_smiling_eyes=grin face_with_tears_of_joy=joy grinning_face_with_big_eyes=smiley
1F604 grinning_face_with_smiling_eyes=smile grinning_face_with_sweat=sweat_smile
1F606 grinning_squinting_face=laughing=satisfied smiling_face_with_halo=innocent smiling_face_with_horns=smiling_imp
1F609 winking_face=wink smiling_face_with_smiling_eyes=blush face_savoring_food=yum relieved_face=relieved
1F60D smiling_face_with_heart-eyes=heart_eyes smiling_face_with_sunglasses=sunglasses smirking_face=smirk neutral_face
1F611 expressionless_face=expressionless unamused_face=unamused downcast_face_with_sweat=sweat pensive_face=pensive
1F615 confused_face=confused confounded_face=confounded kissing_face=kissing face_blowing_a_kiss=kissing_heart
1F619 kissing_face_with_smiling_eyes=kissing_smiling_eyes kissing_face_with_closed_eyes=kissing_closed_eyes
1F61B face_with_tongue=stuck_out_tongue winking_face_with_tongue=stuck_out_tongue_winking_eye
1F61D squinting_face_with_tongue=stuck_out_tongue_closed_eyes disappointed_face=disappointed worried_face=worried
1F620 angry_face=angry pouting_face=rage crying_face=cry persevering_face=persevere face_with_steam_from_nose=triumph
1F625 sad_but_relieved_face=disappointed_relieved frowning_face_with_open_mouth=frowning anguished_face=anguished
1F628 fearful_face=fearful weary_face=weary sleepy_face=sleepy tired_face grimacing_face=grimacing
1F62D loudly_crying_face=sob face_with_open_mouth=open_mouth hushed_face=hushed anxious_face_with_sweat=cold_sweat
1F631 face_screaming_in_fear=scream astonished_face=astonished flushed_face=flushed sleeping_face=sleeping dizzy_face
1F636 face_without_mouth=no_mouth face_with_medical_mask=mask grinning_cat_face_with_smiling_eyes=smile_cat
1F639 cat_face_with_tears_of_joy=joy_cat grinning_cat_face=smiley_cat smiling_cat_face_with_heart-eyes=heart_eyes_cat
1F63C cat_face_with_wry_smile=smirk_cat kissing_cat_face=kissing_cat pouting_cat_face=pouting_cat crying_cat_face
1F640 weary_cat_face=scream_cat slightly_frowning_face slightly_smiling_face upside-down_face=upside__down_face
1F644 face_with_rolling_eyes person_gesturing_no~=no_good person_gesturing_ok~=ok_woman person_bowing~=bow
1F648 see-no-evil_monkey=see_no_evil hear-no-evil_monkey=hear_no_evil speak-no-evil_monkey=speak_no_evil
1F64B person_raising_hand~=raising_hand raising_hands~=raised_hands person_frowning~
1F64E person_pouting~=person_with_pouting_face folded_hands~=pray
1F680 rocket helicopter locomotive=steam_locomotive railway_car high-speed_train=bullettrain_side
1F685 bullet_train=bullettrain_front train2 metro light_rail station tram train=tram_car bus oncoming_bus trolleybus
1F68F bus_stop=busstop minibus ambulance fire_engine police_car oncoming_police_car taxi oncoming_taxi
1F697 automobile=car=red_car oncoming_automobile sport_utility_vehicle=blue_car delivery_truck=truck articulated_lorry
1F69C tractor monorail mountain_railway suspension_railway mountain_cableway aerial_tramway ship
1F6A3 person_rowing_boat~=rowboat speedboat horizontal_traffic_light=traffic_light vertical_traffic_light construction
1F6A8 police_car_light=rotating_light triangular_flag=triangular_flag_on_post door prohibited=no_entry_sign
1F6AC cigarette=smoking no_smoking litter_in_bin_sign=put_litter_in_its_place no_littering=do_not_litter potable_water
1F6B1 non-potable_water=non__potable_water bicycle=bike no_bicycles person_biking~=bicyclist
1F6B5 person_mountain_biking~=mountain_bicyclist person_walking~=walking no_pedestrians children_crossing
1F6B9 men’s_room=mens women’s_room=womens restroom baby_symbol toilet water_closet=wc shower person_taking_bath~=bath
1F6C1 bathtub passport_control customs baggage_claim left_luggage
1F6CB couch_and_lamp person_in_bed~=sleeping_accommodation shopping_bags bellhop_bell bed place_of_worship stop_sign
1F6D2 shopping_cart
1F6D5 hindu_temple
1F6E0 hammer_and_wrench shield oil_drum motorway railway_track motor_boat
1F6E9 small_airplane
1F6EB airplane_departure airplane_arrival=airplane_arriving
1F6F3 passenger_ship kick_scooter motor_scooter canoe sled flying_saucer skateboard auto_rickshaw
1F7E0 orange_circle yellow_circle green_circle purple_circle brown_circle red_square blue_square orange_square
1F7E8 yellow_square green_square purple_square brown_square
1F90D white_heart brown_heart pinching_hand zipper-mouth_face=zipper__mouth_face money-mouth_face=money__mouth_face
1F912 face_with_thermometer nerd_face thinking_face face_with_head-bandage=face_with_head__bandage robot_face=robot
1F917 hugging_face sign_of_the_horns~ call_me_hand~ raised_back_of_hand~ left-facing_fist~ right-facing_fist~
1F91D handshake crossed_fingers~ love-you_gesture~ cowboy_hat_face clown_face nauseated_face
1F923 rolling_on_the_floor_laughing drooling_face lying_face person_facepalming~ sneezing_face
1F928 face_with_raised_eyebrow star-struck zany_face shushing_face face_with_symbols_on_mouth
1F92D face_with_hand_over_mouth face_vomiting exploding_head pregnant_woman~ breast-feeding~ palms_up_together~
1F933 selfie~ prince~ man_in_tuxedo~ mrs._claus~ person_shrugging~ person_cartwheeling~ person_juggling~
1F93A person_fencing
1F93C people_wrestling person_playing_water_polo~ person_playing_handball~ diving_mask wilted_flower drum
1F942 clinking_glasses tumbler_glass spoon goal_net
1F947 1st_place_medal 2nd_place_medal 3rd_place_medal boxing_glove martial_arts_uniform curling_stone lacrosse
1F94E softball flying_disc croissant avocado cucumber bacon potato carrot baguette_bread green_salad
1F958 shallow_pan_of_food stuffed_flatbread
1F95B glass_of_milk peanuts kiwi_fruit pancakes dumpling fortune_cookie takeout_box chopsticks bowl_with_spoon
1F964 cup_with_straw coconut broccoli pie pretzel cut_of_meat sandwich canned_food leafy_green mango moon_cake bagel
1F970 smiling_face_with_3_hearts yawning_face
1F973 partying_face woozy_face hot_face cold_face
1F97A pleading_face sari lab_coat goggles hiking_boot flat_shoe crab lion_face scorpion turkey unicorn_face eagle duck
1F987 bat shark owl fox_face butterfly deer gorilla lizard rhinoceros shrimp squid giraffe zebra hedgehog sauropod
1F996 t-rex cricket kangaroo llama peacock hippopotamus parrot raccoon lobster mosquito microbe badger swan
1F9A5 sloth otter orangutan skunk flamingo oyster
1F9AE guide_dog probing_cane red_hair curly_hair bald white_hair bone leg foot tooth superhero supervillain
1F9BA safety_vest ear_with_hearing_aid motorized_wheelchair manual_wheelchair mechanical_arm mechanical_leg
1F9C0 cheese_wedge cupcake salt beverage_box garlic onion falafel waffle butter mate ice
1F9CD person_standing person_kneeling deaf_person face_with_monocle adult~ child~ older_adult~ bearded_person~
1F9D5 woman_with_headscarf~ person_in_steamy_room~ person_climbing~ person_in_lotus_position~ mage~ fairy~ vampire~
1F9DC merperson~ elf~ genie zombie brain orange_heart billed_cap scarf gloves coat socks red_envelope firecracker
1F9E9 jigsaw test_tube petri_dish dna compass abacus fire_extinguisher toolbox brick magnet luggage lotion_bottle
1F9F5 thread yarn safety_pin teddy_bear broom basket roll_of_paper soap sponge receipt nazar_amulet
1FA70 ballet_shoes one-piece_swimsuit briefs shorts
1FA78 drop_of_blood adhesive_bandage stethoscope
1FA80 yo-yo kite
1FA90 ringed_planet chair razor axe diya_lamp banjo"

def emojiSequences : String := "afghanistan=@AF albania=@AL algeria=@DZ american_samoa=@AS andorra=@AD angola=@AO anguilla=@AI antarctica=@AQ
antigua_&_barbuda=@AG argentina=@AR armenia=@AM aruba=@AW ascension_island=@AC australia=@AU austria=@AT
azerbaijan=@AZ bahamas=@BS bahrain=@BH bangladesh=@BD barbados=@BB belarus=@BY belgium=@BE belize=@BZ benin=@BJ
bermuda=@BM bhutan=@BT bolivia=@BO bosnia_&_herzegovina=@BA botswana=@BW bouvet_island=@BV brazil=@BR
british_indian_ocean_territory=@IO british_virgin_islands=@VG brunei=@BN bulgaria=@BG burkina_faso=@BF burundi=@BI
cambodia=@KH cameroon=@CM canada=@CA canary_islands=@IC cape_verde=@CV caribbean_netherlands=@BQ cayman_islands=@KY
central_african_republic=@CF ceuta_&_melilla=@EA chad=@TD chile=@CL china=@CN christmas_island=@CX
clipperton_island=@CP cocos_(keeling)_islands=flag_for_cocos__islands=1F1E8-1F1E8 colombia=@CO comoros=@KM
congo_-_brazzaville=flag_for_congo____brazzaville=1F1E8-1F1EC congo_-_kinshasa=flag_for_congo____kinshasa=1F1E8-1F1E9
cook_islands=@CK costa_rica=@CR croatia=@HR cuba=@CU curaçao=@CW cyprus=@CY
czechia=flag_for_czech_republic=1F1E8-1F1FF côte_d’ivoire=@CI denmark=@DK diego_garcia=@DG djibouti=@DJ dominica=@DM
dominican_republic=@DO ecuador=@EC egypt=@EG el_salvador=@SV england=1F3F4-E0067-E0062-E0065-E006E-E0067-E007F
equatorial_guinea=@GQ eritrea=@ER estonia=@EE ethiopia=@ET european_union=@EU falkland_islands=@FK faroe_islands=@FO
fiji=@FJ finland=@FI france=@FR french_guiana=@GF french_polynesia=@PF french_southern_territories=@TF gabon=@GA
gambia=@GM georgia=@GE germany=@DE ghana=@GH gibraltar=@GI greece=@GR greenland=@GL grenada=@GD guadeloupe=@GP
guam=@GU guatemala=@GT guernsey=@GG guinea=@GN guinea-bissau=flag_for_guinea__bissau=1F1EC-1F1FC guyana=@GY haiti=@HT
heard_&_mcdonald_islands=@HM honduras=@HN hong_kong_sar_china=flag_for_hong_kong=1F1ED-1F1F0 hungary=@HU iceland=@IS
india=@IN indonesia=@ID iran=@IR iraq=@IQ ireland=@IE isle_of_man=@IM israel=@IL italy=@IT jamaica=@JM jersey=@JE
jordan=@JO kazakhstan=@KZ kenya=@KE kiribati=@KI kosovo=@XK kuwait=@KW kyrgyzstan=@KG laos=@LA latvia=@LV lebanon=@LB
lesotho=@LS liberia=@LR libya=@LY liechtenstein=@LI lithuania=@LT luxembourg=@LU
macau_sar_china=flag_for_macau=1F1F2-1F1F4 macedonia=@MK madagascar=@MG malawi=@MW malaysia=@MY maldives=@MV mali=@ML
malta=@MT marshall_islands=@MH martinique=@MQ mauritania=@MR mauritius=@MU mayotte=@YT mexico=@MX micronesia=@FM
moldova=@MD monaco=@MC mongolia=@MN montenegro=@ME montserrat=@MS morocco=@MA mozambique=@MZ
myanmar_(burma)=flag_for_myanmar=1F1F2-1F1F2 namibia=@NA nauru=@NR nepal=@NP netherlands=@NL new_caledonia=@NC
new_zealand=@NZ nicaragua=@NI niger=@NE nigeria=@NG niue=@NU norfolk_island=@NF north_korea=@KP
northern_mariana_islands=@MP norway=@NO oman=@OM pakistan=@PK palau=@PW palestinian_territories=@PS panama=@PA
papua_new_guinea=@PG paraguay=@PY peru=@PE philippines=@PH pitcairn_islands=@PN poland=@PL portugal=@PT
puerto_rico=@PR qatar=@QA romania=@RO russia=@RU rwanda=@RW réunion=@RE samoa=@WS san_marino=@SM saudi_arabia=@SA
scotland=1F3F4-E0067-E0062-E0073-E0063-E0074-E007F senegal=@SN serbia=@RS seychelles=@SC sierra_leone=@SL
singapore=@SG sint_maarten=@SX slovakia=@SK slovenia=@SI solomon_islands=@SB somalia=@SO south_africa=@ZA
south_georgia_&_south_sandwich_islands=@GS south_korea=@KR south_sudan=@SS spain=@ES sri_lanka=@LK st._barthélemy=@BL
st._helena=@SH st._kitts_&_nevis=@KN st._lucia=@LC st._martin=@MF st._pierre_&_miquelon=@PM
st._vincent_&_grenadines=@VC sudan=@SD suriname=@SR svalbard_&_jan_mayen=@SJ swaziland=@SZ sweden=@SE switzerland=@CH
syria=@SY são_tomé_&_príncipe=@ST taiwan=@TW tajikistan=@TJ tanzania=@TZ thailand=@TH
timor-leste=flag_for_timor__leste=1F1F9-1F1F1 togo=@TG tokelau=@TK tonga=@TO trinidad_&_tobago=@TT
tristan_da_cunha=@TA tunisia=@TN turkmenistan=@TM turks_&_caicos_islands=@TC tuvalu=@TV u.s._outlying_islands=@UM
u.s._virgin_islands=@VI uganda=@UG ukraine=@UA united_arab_emirates=@AE united_kingdom=@GB united_nations=1F1FA-1F1F3
united_states=@US uruguay=@UY uzbekistan=@UZ vanuatu=@VU vatican_city=@VA venezuela=@VE vietnam=@VN
wales=1F3F4-E0067-E0062-E0077-E006C-E0073-E007F wallis_&_futuna=@WF western_sahara=@EH yemen=@YE zambia=@ZM
zimbabwe=@ZW bald_%=P+1F9B2 blond-haired_%~=1F471+S couple_with_heart_man_man=1F468+2764-FE0F+1F468
couple_with_heart_woman_man=1F469+2764-FE0F+1F468 couple_with_heart_woman_woman=1F469+2764-FE0F+1F469
curly-haired_%=P+1F9B1 eye_in_speech_bubble=1F441-FE0F+1F5E8-FE0F family_man_boy=1F468+1F466
family_man_boy_boy=1F468+1F466+1F466 family_man_girl=1F468+1F467 family_man_girl_boy=1F468+1F467+1F466
family_man_girl_girl=1F468+1F467+1F467 family_man_man_boy=1F468+1F468+1F466
family_man_man_boy_boy=1F468+1F468+1F466+1F466 family_man_man_girl=1F468+1F468+1F467
family_man_man_girl_boy=1F468+1F468+1F467+1F466 family_man_man_girl_girl=1F468+1F468+1F467+1F467
family_man_woman_boy=1F468+1F469+1F466 family_man_woman_boy_boy=1F468+1F469+1F466+1F466
family_man_woman_girl=1F468+1F469+1F467 family_man_woman_girl_boy=1F468+1F469+1F467+1F466
family_man_woman_girl_girl=1F468+1F469+1F467+1F467 family_woman_boy=1F469+1F466 family_woman_boy_boy=1F469+1F466+1F466
family_woman_girl=1F469+1F467 family_woman_girl_boy=1F469+1F467+1F466 family_woman_girl_girl=1F469+1F467+1F467
family_woman_woman_boy=1F469+1F469+1F466 family_woman_woman_boy_boy=1F469+1F469+1F466+1F466
family_woman_woman_girl=1F469+1F469+1F467 family_woman_woman_girl_boy=1F469+1F469+1F467+1F466
family_woman_woman_girl_girl=1F469+1F469+1F467+1F467 keycap_#=23-FE0F-20E3 keycap_*=2A-FE0F-20E3
keycap_0=zero=30-FE0F-20E3 keycap_1=one=31-FE0F-20E3 keycap_2=two=32-FE0F-20E3 keycap_3=three=33-FE0F-20E3
keycap_4=four=34-FE0F-20E3 keycap_5=five=35-FE0F-20E3 keycap_6=six=36-FE0F-20E3 keycap_7=seven=37-FE0F-20E3
keycap_8=eight=38-FE0F-20E3 keycap_9=nine=39-FE0F-20E3 kiss_man_man=1F468+2764-FE0F+1F48B+1F468
kiss_woman_man=1F469+2764-FE0F+1F48B+1F468 kiss_woman_woman=1F469+2764-FE0F+1F48B+1F469 %_artist~=P+1F3A8
%_astronaut~=P+1F680 %_biking~=1F6B4+S %_bouncing_ball~=26F9-FE0F+S %_bowing~=1F647+S %_cartwheeling~=1F938+S
%_climbing~=1F9D7+S %_construction_worker~=1F477+S %_cook~=P+1F373 %_detective~=1F575-FE0F+S %_elf~=1F9DD+S
%_facepalming~=1F926+S %_factory_worker~=P+1F3ED %_fairy~=1F9DA+S %_farmer~=P+1F33E %_firefighter~=P+1F692
%_frowning~=1F64D+S %_genie=1F9DE+S %_gesturing_no~=1F645+S %_gesturing_ok~=1F646+S %_getting_haircut~=1F487+S
%_getting_massage~=1F486+S %_golfing~=1F3CC-FE0F+S %_guard~=1F482+S %_health_worker~=P+2695-FE0F
%_in_lotus_position~=1F9D8+S %_in_manual_wheelchair=P+1F9BD %_in_motorized_wheelchair=P+1F9BC
%_in_steamy_room~=1F9D6+S %_judge~=P+2696-FE0F %_juggling~=1F939+S %_lifting_weights~=1F3CB-FE0F+S %_mage~=1F9D9+S
%_mechanic~=P+1F527 %_mountain_biking~=1F6B5+S %_office_worker~=P+1F4BC %_pilot~=P+2708-FE0F
%_playing_handball~=1F93E+S %_playing_water_polo~=1F93D+S %_police_officer~=1F46E+S %_pouting~=1F64E+S
%_raising_hand~=1F64B+S %_rowing_boat~=1F6A3+S %_running~=1F3C3+S %_scientist~=P+1F52C %_shrugging~=1F937+S
%_singer~=P+1F3A4 %_student~=P+1F393 %_surfing~=1F3C4+S %_swimming~=1F3CA+S %_teacher~=P+1F3EB %_technologist~=P+1F4BB
%_tipping_hand~=1F481+S %_vampire~=1F9DB+S %_walking~=1F6B6+S %_wearing_turban~=1F473+S %_with_probing_cane=P+1F9AF
%_zombie=1F9DF+S men_with_bunny_ears=1F46F+2642-FE0F men_wrestling=1F93C+2642-FE0F mermaid~=1F9DC+2640-FE0F
merman~=1F9DC+2642-FE0F people_holding_hands=1F9D1+1F91D+1F9D1 pirate_flag=1F3F4+2620-FE0F
rainbow_flag=1F3F3-FE0F+1F308 red-haired_%=P+1F9B0 service_dog=1F415+1F9BA white-haired_%=P+1F9B3
women_with_bunny_ears=1F46F+2640-FE0F women_wrestling=1F93C+2640-FE0F åland_islands=@AX keycap_asterisk=2A-20E3
keycap_digit_eight=38-20E3 keycap_digit_five=35-20E3 keycap_digit_four=34-20E3 keycap_digit_nine=39-20E3
keycap_digit_one=31-20E3 keycap_digit_seven=37-20E3 keycap_digit_six=36-20E3 keycap_digit_three=33-20E3
keycap_digit_two=32-20E3 keycap_digit_zero=30-20E3 keycap_number_sign=23-20E3 flag_for_japan=1F1EF-1F1F5
flag_for_turkey=1F1F9-1F1F7"

end NqcBlocks.Text
